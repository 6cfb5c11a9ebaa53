import TokimoBus.Client

/-!
What a step can do to the invokes and tasks of a client, and its pending table as an
instance of the request tables: an invoke takes its number from the client's one counter
and is woken by a Response that bears it.
-/
namespace TokimoClient
open TokimoFrame TokimoOutbound TokimoBroker LabelledRuns WrappingCounter RequestTable
variable {toVecNamed : Encoder} {debug : BusFrame → String} {c c' : Client} {a : ClientAct}
  {acts : List ClientAct} {hello : HelloRequest} {handlers : String → Option HandlerId}
  {i : InvokeId} {t : TaskId} {r : UInt64} {resp : Response}

abbrev ClientRun (toVecNamed : Encoder) (debug : BusFrame → String) (hello : HelloRequest)
    (handlers : String → Option HandlerId) (acts : List ClientAct) (c : Client) : Prop :=
  Run (ClientStep toVecNamed debug) (Client.new hello handlers) acts c

abbrev ClientReachable (toVecNamed : Encoder) (debug : BusFrame → String) (hello : HelloRequest)
    (handlers : String → Option HandlerId) (c : Client) : Prop :=
  Reachable (ClientStep toVecNamed debug) (Client.new hello handlers) c

abbrev At (acts : List ClientAct) (n : Nat) (a : ClientAct) : Prop := acts[n]? = some a

def InvokePhase.rank : InvokePhase → Nat
  | .unused => 0
  | .start => 1
  | .register _ => 2
  | .send _ => 3
  | .await _ => 4
  | .done _ => 5
  | .cancelled => 5

def InvokePhase.ticket : InvokePhase → Option UInt64
  | .register r => some r
  | .send r => some r
  | .await r => some r
  | _ => none

def Runner.rank : Runner → Nat
  | .unconnected => 0
  | .greeting => 1
  | .connected => 2
  | .reading => 3
  | .stopping => 4
  | .aborting => 5
  | .finished | .failed _ => 6

def ClientAct.sends : ClientAct → Option BusFrame
  | .ping => some .pong
  | .reply _ r => some (.response r)
  | .send _ inv => some (.invoke inv)
  | .publish topic payload => some (.publish ⟨topic, payload, none⟩)
  | .subscribe p => some (.subscribe p)
  | _ => none

theorem step_runner_rank (h : ClientStep toVecNamed debug c a c') :
    c.runner.rank ≤ c'.runner.rank := by
  cases h with
  | greet here | greetBroken here | acked here | refused here | unread here | run here | hangup here
  | stop here | finish here =>
    simp [here, Client.setRunner, Runner.rank]
  | _ => exact Nat.le_refl _

theorem moved_invoke {f : InvokeId → InvokePhase} {i j : InvokeId} {p q : InvokePhase}
    (here : f j = q) (up : q.rank < p.rank) :
    Function.update f j p i = f i ∨ (f i).rank < (Function.update f j p i).rank := by
  rcases moved_or (c := i) here with same | ⟨rfl, was⟩
  · exact Or.inl same
  · refine Or.inr ?_
    rwa [Function.update_self, was]

theorem step_invoke_rank (h : ClientStep toVecNamed debug c a c') (i : InvokeId) :
    c'.invokePhase i = c.invokePhase i ∨ (c.invokePhase i).rank < (c'.invokePhase i).rank := by
  cases h with
  | begin here | number here | register here | send here | sendClosed here | complete here
  | senderGone here | cancelStart here | cancelAwait here =>
    exact moved_invoke here (by simp [InvokePhase.rank])
  | _ => exact Or.inl rfl

theorem invoke_rank_stable (i : InvokeId) (n : Nat) :
    Stable (ClientStep toVecNamed debug) (Client.new hello handlers)
      (fun c => n ≤ (c.invokePhase i).rank) := by
  intro c a c' _ step now
  rcases step_invoke_rank step i with same | up
  · rwa [same]
  · exact Nat.le_trans now (Nat.le_of_lt up)

def reqIdTakes : ClientAct → Option UInt64
  | .number _ r => some r
  | _ => none

theorem reqId_counts :
    Counts (ClientStep toVecNamed debug) (fun c => c.nextReqId) reqIdTakes 0 where
  take := by
    intro c a c' r h takes
    cases h with
    | number here =>
      simp only [reqIdTakes, Option.some.injEq] at takes
      subst takes
      simp [Client.setInvokePhase, Client.takeReqId]
    | _ => simp [reqIdTakes] at takes
  keep := by
    intro c a c' h takes
    cases h with
    | number here => simp [reqIdTakes] at takes
    | _ => rfl

def invokeStage (p : InvokePhase) : Nat :=
  if p.rank ≤ 1 then 0 else if p.rank = 2 then 1 else if p.rank ≤ 4 then 2 else 3

theorem invokeStage_mono {p q : InvokePhase} (up : p.rank ≤ q.rank) :
    invokeStage p ≤ invokeStage q := by
  unfold invokeStage
  split_ifs <;> omega

theorem step_ticket (h : ClientStep toVecNamed debug c a c')
    (now : (c'.invokePhase i).ticket = some r) :
    (c.invokePhase i).ticket = some r ∨ a = .number i r := by
  cases h with
  | @number j here =>
    rcases moved_to now with old | ⟨rfl, new⟩
    · exact Or.inl old
    · simp only [InvokePhase.ticket, Option.some.injEq] at new
      subst new
      exact Or.inr rfl
  | begin here | register here | send here | sendClosed here | complete here
  | senderGone here | cancelStart here | cancelAwait here =>
    exact Or.inl (moved_from here (by simp [InvokePhase.ticket]) now)
  | _ => exact Or.inl now

theorem step_listed (h : ClientStep toVecNamed debug c a c') (now : c'.pending r = some i) :
    c.pending r = some i ∨ a = .register i r := by
  cases h with
  | @register j q here =>
    rcases moved_to (g := id) now with old | ⟨rfl, new⟩
    · exact Or.inl old
    · simp only [id_eq, Option.some.injEq] at new
      subst new
      exact Or.inr rfl
  | response here found =>
    rcases moved_to (g := id) now with old | ⟨rfl, new⟩
    · exact Or.inl old
    · cases new
  | _ => exact Or.inl now

theorem step_answered (h : ClientStep toVecNamed debug c a c') (now : c'.reply i = some resp) :
    c.reply i = some resp ∨ a = .response resp (some i) := by
  cases h with
  | @response r hit here found =>
    cases hit with
    | none => exact Or.inl now
    | some j =>
      simp only [Client.wake] at now
      split at now
      · rcases moved_to (g := id) now with old | ⟨rfl, new⟩
        · exact Or.inl old
        · simp only [id_eq, Option.some.injEq] at new
          subst new
          exact Or.inr rfl
      · exact Or.inl now
  | _ => exact Or.inl now

def numbers : ClientAct → Option (InvokeId × Unit × UInt64)
  | .number i r => some (i, (), r)
  | _ => none

def lists : ClientAct → Option (InvokeId × Unit × UInt64)
  | .register i r => some (i, (), r)
  | _ => none

def hits : ClientAct → Option (Unit × Response × InvokeId)
  | .response r (some i) => some ((), r, i)
  | _ => none

def completes : ClientAct → Option (InvokeId × Response)
  | .complete i r => some (i, r)
  | _ => none

theorem numbers_eq {u : Unit} (named : numbers a = some (i, u, r)) : a = .number i r := by
  cases a <;> simp [numbers] at named
  obtain ⟨rfl, rfl⟩ := named
  rfl

theorem lists_eq {u : Unit} (named : lists a = some (i, u, r)) : a = .register i r := by
  cases a <;> simp [lists] at named
  obtain ⟨rfl, rfl⟩ := named
  rfl

theorem hits_eq {u : Unit} (named : hits a = some (u, resp, i)) :
    a = .response resp (some i) := by
  cases a with
  | response q hit =>
    cases hit with
    | none => simp [hits] at named
    | some j =>
      simp only [hits, Option.some.injEq, Prod.mk.injEq, true_and] at named
      obtain ⟨rfl, rfl⟩ := named
      rfl
  | _ => simp [hits] at named

theorem completes_eq (named : completes a = some (i, resp)) : a = .complete i resp := by
  cases a <;> simp [completes] at named
  obtain ⟨rfl, rfl⟩ := named
  rfl

def invokes (toVecNamed : Encoder) (debug : BusFrame → String) (hello : HelloRequest)
    (handlers : String → Option HandlerId) :
    Table (ClientStep toVecNamed debug) (Client.new hello handlers) Unit InvokeId Response where
  counter := fun _ c => c.nextReqId
  slot := fun c _ r => c.pending r
  ticket := fun c i => (c.invokePhase i).ticket.map fun r => ((), r)
  reply := fun c i => c.reply i
  stage := fun c i => invokeStage (c.invokePhase i)
  tag := Response.reqId
  takes := fun _ => reqIdTakes
  numbers := numbers
  lists := lists
  hits := hits
  completes := completes
  counts := fun _ => reqId_counts
  takes_numbers := by
    intro a i u r named
    obtain rfl := numbers_eq named
    rfl
  forward := by
    intro c a c' i h
    apply invokeStage_mono
    rcases step_invoke_rank h i with same | up
    · rw [same]
    · exact Nat.le_of_lt up
  number := by
    intro c a c' i u r h named
    obtain rfl := numbers_eq named
    cases h with
    | number here => simp [here, Client.setInvokePhase, invokeStage, InvokePhase.rank]
  ticket_start := fun _ => rfl
  ticket_gain := by
    intro c a c' i u r h held
    simp only [Option.map_eq_some_iff, Prod.mk.injEq, true_and, exists_eq_right] at held ⊢
    refine (step_ticket h held).imp_right ?_
    rintro rfl
    rfl
  slot_start := fun _ _ => rfl
  slot_gain := by
    intro c a c' i u r h listed
    refine (step_listed h listed).imp_right ?_
    rintro rfl
    rfl
  list := by
    intro c a c' i u r h named
    obtain rfl := lists_eq named
    cases h with
    | register here =>
      simp [here, Client.setInvokePhase, InvokePhase.ticket, invokeStage, InvokePhase.rank]
  hit := by
    intro c a c' u resp i h named
    obtain rfl := hits_eq named
    cases h with
    | response here found => exact ⟨found.symm, by simp [Client.wake, Client.setPending], rfl⟩
  reply_start := fun _ => rfl
  reply_gain := by
    intro c a c' i resp h now
    refine (step_answered h now).imp_right ?_
    rintro rfl
    exact ⟨(), rfl⟩
  complete := by
    intro c a c' i resp h named
    obtain rfl := completes_eq named
    cases h with
    | complete here value =>
      refine ⟨value, ?_, ?_⟩
      · simp [here, invokeStage, InvokePhase.rank]
      · simp [Client.setInvokePhase, invokeStage, InvokePhase.rank]

end TokimoClient

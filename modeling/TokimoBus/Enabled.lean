import Mathlib.Data.Fintype.EquivFin
import TokimoBus.SystemCalls

/-!
What the tasks of the broker and of a client can do next. A loop takes whatever frame comes, the
task of a call goes on unless it waits for a Response, and there are always names for new calls,
tasks and invokes.
-/
namespace TokimoEnabled
open TokimoFrame TokimoOutbound TokimoBroker LabelledRuns

/-- A finite run names finitely many. -/
theorem fresh_name {σ α κ : Type} [Infinite κ] [DecidableEq κ] {step : σ → α → σ → Prop}
    {start s : σ} {as : List α} (name : α → Option κ) {used : σ → κ → Prop}
    (none : ∀ c, ¬ used start c)
    (gains : ∀ c v a w, step v a w → used w c → used v c ∨ name a = some c)
    (run : Run step start as s) : ∃ c, ¬ used s c := by
  obtain ⟨c, fresh⟩ := Infinite.exists_notMem_finset (as.filterMap name).toFinset
  refine ⟨c, ?_⟩
  intro now
  obtain ⟨a, mem, named⟩ := event_of_gained (fun a => name a = some c) (p := fun s => used s c)
    (none c) (gains c) run now
  exact fresh (List.mem_toFinset.mpr (List.mem_filterMap.mpr ⟨a, mem, named⟩))

section broker
open TokimoSession TokimoConfinement TokimoSystem
variable {env : Env} {w w' : World} {a : Act} {acts : List Act} {c : CallId} {k : ConnId}
  {s : Session} {f : BusFrame} {inv : Invoke}

def begins : Act → Option CallId
  | .call c _ | .probe _ c | .spawn _ _ c => some c
  | _ => none

theorem fresh_call (run : BrokerRun env acts w) : ∃ c, w.callPhase c = .unused := by
  have gains : ∀ c v a v', Step env v a v' → v'.callPhase c ≠ .unused →
      v.callPhase c ≠ .unused ∨ begins a = some c := by
    intro c v a v' step now
    by_cases new : v.callPhase c = .unused
    · rcases step_begins step new now with ⟨x, rfl, _⟩ | ⟨k, s, rfl, _⟩ | ⟨k, s, inv, rfl, _⟩
      · exact Or.inr rfl
      · exact Or.inr rfl
      · exact Or.inr rfl
    · exact Or.inl new
  obtain ⟨c, fresh⟩ := fresh_name begins (by simp [World.init]) gains run
  exact ⟨c, not_not.mp fresh⟩

theorem loop_takes (here : w.phase k = .live s .read) (new : w.callPhase c = .unused)
    (f : BusFrame) :
    ∃ a w', Step env w a w' ∧ brokerReads a = some (k, f) ∧ readsFor a = some k := by
  by_cases ignored : Ignored f
  · exact ⟨_, _, Step.ignore here ignored, rfl, rfl⟩
  · cases f with
    | invoke inv => exact ⟨.spawn k inv c, _, Step.spawn here new, rfl, rfl⟩
    | response r => exact ⟨.response k r _, _, Step.response here rfl, rfl, rfl⟩
    | publish ev =>
      exact ⟨.fanout k ev _, _, Step.fanout here (Finset.nodup_toList _) (Finset.toList_toFinset _),
        rfl, rfl⟩
    | subscribe p => exact ⟨.subscribe k p, _, Step.subscribe here, rfl, rfl⟩
    | unsubscribe p => exact ⟨.unsubscribe k p, _, Step.unsubscribe here, rfl, rfl⟩
    | _ => exact absurd trivial ignored

/-- The main loop goes on until it reads the next frame. -/
theorem loop_goes_on (loops : (w.phase k).rank = 9) :
    (∃ s, w.phase k = .live s .read) ∨
      ∃ a w', Step env w a w' ∧ brokerReads a = none ∧ readsFor a = some k := by
  cases here : w.phase k with
  | live s stage =>
    cases stage with
    | read => exact Or.inl ⟨s, rfl⟩
    | fan ev targets =>
      cases targets with
      | nil => exact Or.inr ⟨_, _, Step.fanned here, rfl, rfl⟩
      | cons svc rest => exact Or.inr ⟨_, _, Step.target here rfl, rfl, rfl⟩
    | deliver ev j rest =>
      by_cases alive : (w.out j).IsOpen
      · exact Or.inr ⟨_, _, Step.deliver here alive, rfl, rfl⟩
      · exact Or.inr ⟨_, _, Step.undelivered here alive, rfl, rfl⟩
    | _ =>
      rw [here] at loops
      simp [Phase.rank, Stage.rank] at loops
  | _ =>
    rw [here] at loops
    simp [Phase.rank] at loops

/-- The call waits for a Response, and somebody can still deliver it. -/
def Waits (w : World) (c : CallId) : Prop :=
  (∃ k r, w.callPhase c = .await k r) ∧ w.reply c = none ∧ w.SenderAlive c

def retired : CallPhase → Bool
  | .cancelled | .caching _ => true
  | _ => false

theorem call_goes_on (app : (w.call c).origin = .app k inv) (begun : w.callPhase c ≠ .unused)
    (kept : retired (w.callPhase c) = false) :
    w.callPhase c = .answered ∨ Waits w c ∨ ∃ a w', Step env w a w' ∧ taskOf a = some c ∧
      a ≠ .elapse c ∧ a ≠ .localTimeout c := by
  cases here : w.callPhase c with
  | unused => exact absurd here begun
  | start =>
    cases found : w.broker.localServices (w.call c).service with
    | some h => exact Or.inr (Or.inr ⟨_, _, Step.localHit here found, rfl, by simp⟩)
    | none => exact Or.inr (Or.inr ⟨_, _, Step.localMiss here found, rfl, by simp⟩)
  | localGate h =>
    cases verdict : localGate (w.broker.localServiceMethods (w.call c).service) (w.call c).service
        (w.call c).method (w.call c).caller with
    | ok _ => exact Or.inr (Or.inr ⟨_, _, Step.localAdmit here rfl verdict, rfl, by simp⟩)
    | error e => exact Or.inr (Or.inr ⟨_, _, Step.localRefuse here rfl verdict, rfl, by simp⟩)
  | localRun h =>
    exact Or.inr (Or.inr ⟨.localReturn c h (.ok []), _, Step.localReturn here, rfl, by simp⟩)
  | lookup =>
    cases found : w.broker.registry.get (w.call c).service with
    | none => exact Or.inr (Or.inr ⟨_, _, Step.lookupNone here found, rfl, by simp⟩)
    | some e =>
      cases verdict : remoteGate e (w.call c).service (w.call c).method (w.call c).caller with
      | ok _ => exact Or.inr (Or.inr ⟨_, _, Step.permit here found verdict, rfl, by simp⟩)
      | error err => exact Or.inr (Or.inr ⟨_, _, Step.refuse here found verdict, rfl, by simp⟩)
  | route e =>
    cases found : w.broker.sessions ((w.call c).service, e.generation) with
    | none => exact Or.inr (Or.inr ⟨_, _, Step.routeNone here found, rfl, by simp⟩)
    | some h => exact Or.inr (Or.inr ⟨_, _, Step.route here found, rfl, by simp⟩)
  | number e j => exact Or.inr (Or.inr ⟨_, _, Step.number here, rfl, by simp⟩)
  | register e j r => exact Or.inr (Or.inr ⟨_, _, Step.register here, rfl, by simp⟩)
  | send e j r =>
    by_cases alive : (w.out e.tx).IsOpen
    · exact Or.inr (Or.inr ⟨_, _, Step.send here alive, rfl, by simp⟩)
    · exact Or.inr (Or.inr ⟨_, _, Step.sendClosed here alive, rfl, by simp⟩)
  | await j r =>
    cases value : w.reply c with
    | some resp => exact Or.inr (Or.inr ⟨_, _, Step.complete here value, rfl, by simp⟩)
    | none =>
      by_cases alive : w.SenderAlive c
      · exact Or.inr (Or.inl ⟨⟨j, r, here⟩, value, alive⟩)
      · exact Or.inr (Or.inr ⟨_, _, Step.senderGone here value alive, rfl, by simp⟩)
  | expire j r => exact Or.inr (Or.inr ⟨_, _, Step.expire here, rfl, by simp⟩)
  | done result =>
    by_cases alive : (w.out k).IsOpen
    · exact Or.inr (Or.inr ⟨_, _, Step.answer app here alive, rfl, by simp⟩)
    · exact Or.inr (Or.inr ⟨_, _, Step.answerClosed app here alive, rfl, by simp⟩)
  | answered => exact Or.inl rfl
  | cancelled | caching =>
    rw [here] at kept
    cases kept

theorem step_retired (step : Step env w a w') (now : retired (w'.callPhase c) = true) :
    retired (w.callPhase c) = true ∨ w.callPhase c ≠ .unused ∧
      ∀ k inv, (w.call c).origin ≠ .app k inv := by
  have back : ∀ {d : CallId} {p q : CallPhase}, w.callPhase d = q → q ≠ .unused →
      (retired p = true → ∀ k inv, (w.call d).origin ≠ .app k inv) →
      retired (Function.update w.callPhase d p c) = true →
      retired (w.callPhase c) = true ∨ w.callPhase c ≠ .unused ∧
        ∀ k inv, (w.call c).origin ≠ .app k inv := by
    intro d p q here used made now
    refine moved_made (P := fun p => retired p = true) (fun eq new => ?_) now
    subst eq
    exact ⟨by rwa [here], made new⟩
  cases step with
  | cancelStart host here | cancelLocal host here | cancelAwait host here =>
    refine back here (by simp) ?_ now
    simp [host]
  | probeCheck origin here =>
    refine back here (by simp) ?_ now
    simp [origin]
  | spawn _ here =>
    refine Or.inl (moved_back (P := fun p => retired p = true) here ?_ now)
    unfold appCall
    split <;> simp [retired]
  | probe _ here | call here =>
    exact Or.inl (moved_back (P := fun p => retired p = true) here (by simp [retired]) now)
  | localHit here | localMiss here | localAdmit here
  | localRefuse here | localReturn here | localTimeout here | lookupNone here | permit here
  | refuse here | routeNone here | route here | number here | register here | send here
  | sendClosed here | complete here | senderGone here | elapse here | expire here
  | answer _ here | answerClosed _ here | probeFail _ here | cache _ here =>
    exact back here (by simp) (by simp [retired]) now
  | _ => exact Or.inl now

theorem app_kept (reach : BrokerReachable env w) (app : (w.call c).origin = .app k inv) :
    retired (w.callPhase c) = false := by
  cases gone : retired (w.callPhase c) with
  | false => rfl
  | true =>
    have foreign : w.callPhase c ≠ .unused ∧ ∀ k inv, (w.call c).origin ≠ .app k inv := by
      refine reachable_invariant (p := fun w => retired (w.callPhase c) = true →
        w.callPhase c ≠ .unused ∧ ∀ k inv, (w.call c).origin ≠ .app k inv) ?_ ?_ reach gone
      · simp [World.init, retired]
      · intro v a v' _ step known now
        have old : v.callPhase c ≠ .unused ∧ ∀ k inv, (v.call c).origin ≠ .app k inv := by
          rcases step_retired step now with early | fired
          · exact known early
          · exact fired
        exact ⟨begun_keeps step old.1, by rw [call_keeps step old.1]; exact old.2⟩
    exact absurd app (foreign.2 k inv)

end broker

section client
open TokimoClient TokimoSystem
variable {encoder : Encoder} {debug : BusFrame → String} {hello : HelloRequest}
  {handlers : String → Option HandlerId} {c c' : Client} {b : ClientAct} {acts : List ClientAct}
  {i : InvokeId} {t : TaskId} {r : UInt64}

def spawns : ClientAct → Option TaskId
  | .invoke _ t => some t
  | _ => none

theorem fresh_task (run : ClientRun encoder debug hello handlers acts c) :
    ∃ t, c.task t = .unused := by
  have gains : ∀ t v a v', ClientStep encoder debug v a v' → v'.task t ≠ .unused →
      v.task t ≠ .unused ∨ spawns a = some t := by
    intro t v a v' step now
    cases step with
    | invoke _ here =>
      refine moved_made (P := fun p => p ≠ TaskPhase.unused) ?_ now
      rintro rfl _
      rfl
    | handle here | unhandled here | handled here | reply here | replyClosed here =>
      exact Or.inl (moved_back (P := fun p => p ≠ TaskPhase.unused) here (by simp) now)
    | _ => exact Or.inl now
  obtain ⟨t, fresh⟩ := fresh_name spawns (by simp [Client.new]) gains run
  exact ⟨t, not_not.mp fresh⟩

def starts : ClientAct → Option InvokeId
  | .begin i _ => some i
  | _ => none

theorem fresh_invoke (run : ClientRun encoder debug hello handlers acts c) :
    ∃ i, c.invokePhase i = .unused := by
  have gains : ∀ i v a v', ClientStep encoder debug v a v' → v'.invokePhase i ≠ .unused →
      v.invokePhase i ≠ .unused ∨ starts a = some i := by
    intro i v a v' step now
    cases step with
    | @begin j x here =>
      by_cases eq : i = j
      · subst eq
        exact Or.inr rfl
      · refine Or.inl ?_
        simpa [Client.begin, Client.setInvokePhase, eq] using now
    | number here | register here | send here | sendClosed here | complete here
    | senderGone here | cancelStart here | cancelAwait here =>
      exact Or.inl (moved_back (P := fun p => p ≠ InvokePhase.unused) here (by simp) now)
    | _ => exact Or.inl now
  obtain ⟨i, fresh⟩ := fresh_name starts (by simp [Client.new]) gains run
  exact ⟨i, not_not.mp fresh⟩

theorem reader_takes (here : c.runner = .reading) (new : c.task t = .unused) (f : BusFrame) :
    ∃ b c', ClientStep encoder debug c b c' ∧ clientReads b = some f := by
  by_cases ignored : Ignored f
  · exact ⟨_, _, ClientStep.ignore here ignored, rfl⟩
  · cases f with
    | ping =>
      by_cases alive : c.out.IsOpen
      · exact ⟨_, _, ClientStep.ping here alive, rfl⟩
      · exact ⟨_, _, ClientStep.pingClosed here alive, rfl⟩
    | shutdown => exact ⟨_, _, ClientStep.shutdownFrame here, rfl⟩
    | invoke inv => exact ⟨.invoke inv t, _, ClientStep.invoke here new, rfl⟩
    | response resp => exact ⟨.response resp _, _, ClientStep.response here rfl, rfl⟩
    | _ => exact absurd trivial ignored

def Awaits (c : Client) (i : InvokeId) : Prop :=
  (∃ r, c.invokePhase i = .await r) ∧ c.reply i = none ∧ c.SenderAlive i

def polls : ClientAct → Option InvokeId
  | .number i _ | .register i _ | .send i _ | .sendClosed i | .complete i _ | .senderGone i =>
    some i
  | _ => none

theorem invoke_goes_on (active : (c.invokePhase i).active = true) :
    Awaits c i ∨ ∃ b c', ClientStep encoder debug c b c' ∧ polls b = some i := by
  cases here : c.invokePhase i with
  | unused | done | cancelled =>
    rw [here] at active
    cases active
  | start => exact Or.inr ⟨_, _, ClientStep.number here, rfl⟩
  | register r => exact Or.inr ⟨_, _, ClientStep.register here, rfl⟩
  | send r =>
    by_cases alive : c.out.IsOpen
    · exact Or.inr ⟨_, _, ClientStep.send here alive, rfl⟩
    · exact Or.inr ⟨_, _, ClientStep.sendClosed here alive, rfl⟩
  | await r =>
    cases value : c.reply i with
    | some resp => exact Or.inr ⟨_, _, ClientStep.complete here value, rfl⟩
    | none =>
      by_cases alive : c.SenderAlive i
      · exact Or.inl ⟨⟨r, here⟩, value, alive⟩
      · exact Or.inr ⟨_, _, ClientStep.senderGone here value alive, rfl⟩

theorem task_goes_on : c.task t = .unused ∨ (∃ inv h, c.task t = .running inv h) ∨
    c.task t = .finished ∨ (∃ inv h c', ClientStep encoder debug c (.handle t inv h) c') ∨
    ∃ b c', ClientStep encoder debug c b c' ∧
      ((∃ inv, b = .unhandled t inv) ∨ (∃ r, b = .reply t r) ∨ b = .replyClosed t) := by
  cases here : c.task t with
  | unused => exact Or.inl rfl
  | running inv h => exact Or.inr (Or.inl ⟨inv, h, rfl⟩)
  | finished => exact Or.inr (Or.inr (Or.inl rfl))
  | spawned inv =>
    cases found : c.handlers inv.method with
    | some h => exact Or.inr (Or.inr (Or.inr (Or.inl ⟨inv, h, _, ClientStep.handle here found⟩)))
    | none =>
      exact Or.inr (Or.inr (Or.inr (Or.inr ⟨_, _, ClientStep.unhandled here found,
        Or.inl ⟨inv, rfl⟩⟩)))
  | reply r result =>
    by_cases alive : c.out.IsOpen
    · exact Or.inr (Or.inr (Or.inr (Or.inr ⟨_, _, ClientStep.reply here alive,
        Or.inr (Or.inl ⟨_, rfl⟩)⟩)))
    · exact Or.inr (Or.inr (Or.inr (Or.inr ⟨_, _, ClientStep.replyClosed here alive,
        Or.inr (Or.inr rfl)⟩)))

end client

end TokimoEnabled

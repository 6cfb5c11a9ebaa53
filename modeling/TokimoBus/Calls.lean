import TokimoBus.SessionFacts

/-!
Where a call's own variables came from. The entry a call holds is the one it was
admitted with, the handle it holds is the one its routing step found, and the number
it registers under is the one it took from that handle's counter; each of these steps
lies in the past.
-/
namespace TokimoCalls
open TokimoFrame TokimoOutbound TokimoBroker TokimoSession LabelledRuns
variable {env : Env} {w w' : World} {a : Act} {acts : List Act} {c : CallId}

def entry : CallPhase → Option ServiceEntry
  | .route e => some e
  | .number e _ => some e
  | .register e _ _ => some e
  | .send e _ _ => some e
  | _ => none

def ticket : CallPhase → Option (ConnId × UInt64)
  | .register _ k r => some (k, r)
  | .send _ k r => some (k, r)
  | .await k r => some (k, r)
  | .expire k r => some (k, r)
  | _ => none

def routed : CallPhase → Option (ServiceEntry × ConnId)
  | .number e k => some (e, k)
  | .register e k _ => some (e, k)
  | .send e k _ => some (e, k)
  | _ => none

def handler : CallPhase → Option HandlerId
  | .localGate h => some h
  | _ => none

/-- A call in phase `q` holds nothing that it did not hold in phase `p`, except what the
    step labelled `a` read for it. -/
structure Gains (c : CallId) (a : Act) (p q : CallPhase) : Prop where
  entry : ∀ e, entry q = some e → entry p = some e ∨ a = .permit c e
  handle : ∀ k, q.handle = some k → p.handle = some k ∨ a = .route c k
  ticket : ∀ k r, ticket q = some (k, r) → ticket p = some (k, r) ∨ a = .number c k r
  handler : ∀ h, handler q = some h → handler p = some h ∨ a = .localLookup c (some h)
  routed : ∀ e k, routed q = some (e, k) →
    routed p = some (e, k) ∨ a = .route c k ∧ p = .route e
  sent : ∀ k r, q = .await k r →
    p = .await k r ∨ ∃ e inv, p = .send e k r ∧ a = .send c e.tx inv ∧ inv.reqId = r
  running : ∀ h, q = .localRun h → p = .localRun h ∨ ∃ ms, a = .localAdmit c h ms
  result : ∀ bytes, q = .done (.ok bytes) → p = .done (.ok bytes) ∨
    (∃ h, p = .localRun h ∧ a = .localReturn c h (.ok bytes)) ∨
      ∃ resp, a = .complete c resp ∧ resp.result = .ok bytes

theorem gains_refl (p : CallPhase) : Gains c a p p :=
  ⟨fun _ => Or.inl, fun _ => Or.inl, fun _ _ => Or.inl, fun _ => Or.inl, fun _ _ => Or.inl,
    fun _ _ => Or.inl, fun _ => Or.inl, fun _ => Or.inl⟩

theorem moved_gains {f : CallId → CallPhase} {c d : CallId} {p q : CallPhase} (here : f d = q)
    (gains : Gains d a q p) : Gains c a (f c) (Function.update f d p c) := by
  by_cases same : c = d
  · subst same
    rw [Function.update_self, here]
    exact gains
  · rw [Function.update_of_ne same]
    exact gains_refl _

theorem step_gains (h : Step env w a w') (c : CallId) :
    Gains c a (w.callPhase c) (w'.callPhase c) := by
  cases h with
  | spawn _ here =>
    refine moved_gains here ?_
    unfold appCall
    split <;> constructor <;> simp [entry, CallPhase.handle, ticket, handler, routed]
  | probeCheck _ here =>
    refine moved_gains here ?_
    split <;> constructor <;> simp [entry, CallPhase.handle, ticket, handler, routed]
  | @send d e k r here =>
    refine moved_gains here ?_
    constructor
    case sent =>
      intro k' r' same
      cases same
      exact Or.inr ⟨e, _, rfl, rfl, rfl⟩
    all_goals simp [entry, CallPhase.handle, ticket, handler, routed]
  | @localReturn d hd result here =>
    refine moved_gains here ?_
    constructor
    case result =>
      intro bytes same
      cases same
      exact Or.inr (Or.inl ⟨hd, rfl, rfl⟩)
    all_goals simp [entry, CallPhase.handle, ticket, handler, routed]
  | @complete d k r resp here =>
    refine moved_gains here ?_
    constructor
    case result =>
      intro bytes same
      simp only [CallPhase.done.injEq] at same
      exact Or.inr (Or.inr ⟨resp, rfl, same⟩)
    all_goals simp [entry, CallPhase.handle, ticket, handler, routed]
  | probe _ here | call here | localHit here | localMiss here | localAdmit here
  | localRefuse here | localTimeout here | lookupNone here | permit here | refuse here
  | routeNone here | route here | number here | register here | sendClosed here
  | senderGone here | elapse here | expire here
  | cancelStart _ here | cancelLocal _ here | cancelAwait _ here | answer _ here
  | answerClosed _ here | probeFail _ here | cache _ here =>
    refine moved_gains here ?_
    constructor <;> simp [entry, CallPhase.handle, ticket, handler, routed]
  | _ => exact gains_refl _

theorem entry_history (run : BrokerRun env acts w) {e : ServiceEntry}
    (now : entry (w.callPhase c) = some e) : Act.permit c e ∈ acts :=
  label_of_gained (p := fun w => entry (w.callPhase c) = some e) (by simp [World.init, entry])
    (fun _ _ _ step now => (step_gains step c).entry e now) run now

theorem handler_history (run : BrokerRun env acts w) {h : HandlerId}
    (now : handler (w.callPhase c) = some h) : Act.localLookup c (some h) ∈ acts :=
  label_of_gained (p := fun w => handler (w.callPhase c) = some h) (by simp [World.init, handler])
    (fun _ _ _ step now => (step_gains step c).handler h now) run now

theorem call_fixed {v : World} (before : BrokerReachable env v) (rest : Run (Step env) v acts w)
    (begun : v.callPhase c ≠ .unused) : w.call c = v.call c := by
  have kept := stable_run (p := fun u => u.callPhase c ≠ .unused ∧ u.call c = v.call c)
    (fun u b u' _ step now => ⟨begun_keeps step now.1, (call_keeps step now.1).trans now.2⟩)
    before rest ⟨begun, rfl⟩
  exact kept.2

end TokimoCalls

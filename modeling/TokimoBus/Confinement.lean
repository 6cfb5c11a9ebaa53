import TokimoBus.Correlation

/-!
What a connected app can bring about by the frames it sends. A frame has its effect in
the session's main loop, in the call spawned for an Invoke, or in the probe task that a
Response wakes. Whatever the frame's fields say, these steps stamp the session's own
service on what they pass on, answer on the session's own channel, and write only the
session's own subscriptions and capabilities.
-/
namespace TokimoConfinement
open TokimoFrame TokimoOutbound TokimoBroker TokimoSession TokimoCalls TokimoIdentity
open TokimoCorrelation TokimoProgress TokimoWire LabelledRuns WrappingCounter RequestTable
variable {env : Env} {w w' : World} {a : Act} {acts : List Act} {c : CallId} {k j : ConnId}
  {s : Session} {inv : Invoke} {r : UInt64}

def readsFor : Act → Option ConnId
  | .response k _ _ | .fanout k _ _ | .target k _ _ | .deliver k _ _ | .undelivered k _
  | .fanned k | .subscribe k _ | .unsubscribe k _ | .spawn k _ _ | .ignore k _ => some k
  | _ => none

def taskOf : Act → Option CallId
  | .localLookup c _ | .localAdmit c _ _ | .localRefuse c _ _ | .localReturn c _ _
  | .localTimeout c | .lookupNone c | .permit c _ | .refuse c _ _ | .routeNone c | .route c _
  | .number c _ _ | .register c _ _ | .send c _ _ | .sendClosed c | .complete c _
  | .senderGone c | .elapse c | .expire c _ _ | .cancel c | .answer c _ _
  | .answerClosed c => some c
  | _ => none

def probeOf : Act → Option CallId
  | .probeCheck c _ | .probeFail c | .cache c _ _ => some c
  | _ => none

structure AppCall (env : Env) (w : World) (c : CallId) (k : ConnId) (inv : Invoke) : Prop where
  args : ∃ s, w.session k = some s ∧ w.call c = (appCall env.config k s.service inv).1
  split : (w.callPhase c).rank < 11 → splitOnce inv.method ≠ none

theorem appCall_split {config : BrokerConfig} {originator : String}
    (early : (appCall config k originator inv).2.rank < 11) : splitOnce inv.method ≠ none := by
  intro absent
  simp [appCall, absent, CallPhase.rank] at early

theorem app_call (reach : BrokerReachable env w) :
    w.callPhase c ≠ .unused → (w.call c).origin = .app k inv → AppCall env w c k inv := by
  refine reachable_invariant (p := fun w => w.callPhase c ≠ .unused →
    (w.call c).origin = .app k inv → AppCall env w c k inv) ?_ ?_ reach
  · intro begun
    exact absurd rfl begun
  · intro w a w' reach step known begun app
    by_cases new : w.callPhase c = .unused
    · rcases step_begins step new begun with ⟨x, _, rfl, host⟩ | ⟨k', s, _, _, args⟩ |
        ⟨k', s, inv', _, session, args, phase⟩
      · rw [host] at app
        cases app
      · rw [args] at app
        cases app
      · rw [args, appCall_origin] at app
        cases app
        refine ⟨⟨s, session_keeps step session, args⟩, ?_⟩
        rw [phase]
        exact appCall_split
    · have fixed := call_keeps step new
      rw [fixed] at app
      obtain ⟨⟨s, session, args⟩, split⟩ := known new app
      refine ⟨⟨s, session_keeps step session, fixed.trans args⟩, fun early => split ?_⟩
      rcases step_call_rank step c with same | up
      · rwa [same] at early
      · omega

/-- What is passed on bears the app's own name beside what the app sent. -/
structure Stamped (inv : Invoke) (service : String) (caller : CallerCtx) (payload : Bytes) :
    Prop where
  origin : caller.callerAppId = some service
  user : caller.userId = inv.caller.userId
  request : caller.requestId = inv.caller.requestId
  workspace : caller.workspace = inv.caller.workspace
  payload : payload = inv.payload

theorem appCall_stamped {config : BrokerConfig} {originator : String}
    (split : splitOnce inv.method ≠ none) :
    Stamped inv originator (appCall config k originator inv).1.caller
      (appCall config k originator inv).1.payload := by
  obtain ⟨⟨service, method⟩, parts⟩ := Option.ne_none_iff_exists'.mp split
  simp only [appCall, parts]
  exact ⟨rfl, rfl, rfl, rfl, rfl⟩

def fanned : Phase → Option (Session × Event)
  | .live s (.fan ev _) => some (s, ev)
  | .live s (.deliver ev _ _) => some (s, ev)
  | _ => none

end TokimoConfinement

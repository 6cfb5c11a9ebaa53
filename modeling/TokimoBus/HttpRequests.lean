import TokimoBus.Ambient
import TokimoBus.Gate

/-!
HTTP requests that the server forwards to an app. `auth_middleware` polls the handler in a scope
of `USER_ID` with the user that the header names; `TokimoUser` reads the same header. A request is
a task beside those of `dispatch_invoke`, on the same threads; what these do is left open.
-/
namespace TokimoHttp
open TokimoFrame TokimoBroker TokimoSession TokimoClient TokimoSystem TokimoGate TokimoResults
open TokimoAmbient TaskLocal LabelledRuns

abbrev RequestId := Nat
abbrev HttpTask := TokimoAmbient.Task ⊕ (ConnId × RequestId)

structure HttpRequest where
  headers : List (String × Bytes)

def userHeader : String := "x-tokimo-user-id"

/-- The user that `auth_middleware` puts into the scope, where `HeaderValue::to_str` reads a
    value as `toStr` does. -/
def authMiddleware (toStr : Bytes → Option String) (req : HttpRequest) : Option String :=
  ((req.headers.lookup userHeader).bind toStr).filter fun s => !s.isEmpty

structure TokimoUser where
  userId : String
  deriving DecidableEq

structure Rejection where
  status : Nat
  error : String
  deriving DecidableEq

def unauthorized : Rejection :=
  ⟨401, "missing X-Tokimo-User-Id (not authenticated by main server)"⟩

def fromRequestParts (toStr : Bytes → Option String) (req : HttpRequest) :
    Except Rejection TokimoUser :=
  match ((req.headers.lookup userHeader).bind toStr).filter fun s => !s.isEmpty with
  | some userId => .ok ⟨userId⟩
  | none => .error unauthorized

theorem extracted_iff {toStr : Bytes → Option String} {req : HttpRequest} {user : TokimoUser} :
    fromRequestParts toStr req = .ok user ↔ authMiddleware toStr req = some user.userId := by
  unfold fromRequestParts authMiddleware
  cases ((req.headers.lookup userHeader).bind toStr).filter fun s => !s.isEmpty with
  | none => simp
  | some userId =>
    simp only [Except.ok.injEq, Option.some.injEq]
    constructor
    · rintro rfl
      rfl
    · rintro rfl
      rfl

structure Web where
  system : System
  userIds : Locals Worker HttpTask (Option String)
  request : ConnId → RequestId → Option HttpRequest

def Web.start (procs : Processes) : Web :=
  ⟨System.start procs, Locals.idle _ _ _, fun _ _ => none⟩

def Web.setRequest (s : Web) (k : ConnId) (r : RequestId) (req : HttpRequest) : Web :=
  { s with request := Function.update s.request k (Function.update (s.request k) r (some req)) }

/-- The handler of the request is in the scope of the middleware and in none of its own, and has
    not set the user. -/
def plain (l : Locals Worker HttpTask (Option String)) (w : Worker) (t : HttpTask) : Bool :=
  !l.changed t && (l.installed w).length == 1

inductive WebAct where
  | system (x : SystemAct)
  | arrive (w : Worker) (k : ConnId) (r : RequestId) (req : HttpRequest)
  | middleware (w : Worker) (k : ConnId) (r : RequestId) (userId : Option String)
  | invoke (w : Worker) (k : ConnId) (r : RequestId) (plain : Bool) (i : InvokeId) (x : InvokeArgs)
  | poll (a : LocalAct Worker HttpTask (Option String))

def Opens : LocalAct Worker HttpTask (Option String) → Prop
  | .start _ (.inr _) | .scope _ (.inr _) _ => True
  | _ => False

inductive WebStep (env : Env) (debug : BusFrame → String) (toStr : Bytes → Option String) :
    Web → WebAct → Web → Prop where
  | system {s : Web} {x : SystemAct} {v : System} (one : SystemStep env debug s.system x v) :
      WebStep env debug toStr s (.system x) { s with system := v }
  | arrive {s : Web} {w : Worker} {k : ConnId} {r : RequestId} {req : HttpRequest}
      {l : Locals Worker HttpTask (Option String)} (new : s.request k r = none)
      (poll : LocalStep s.userIds (.start w (.inr (k, r))) l) :
      WebStep env debug toStr s (.arrive w k r req) { s.setRequest k r req with userIds := l }
  | middleware {s : Web} {w : Worker} {k : ConnId} {r : RequestId} {req : HttpRequest}
      {l : Locals Worker HttpTask (Option String)} (here : s.request k r = some req)
      (poll : LocalStep s.userIds (.scope w (.inr (k, r)) (authMiddleware toStr req)) l) :
      WebStep env debug toStr s (.middleware w k r (authMiddleware toStr req))
        { s with userIds := l }
  -- `client.invoke(service, method, payload, client.auto_caller(app_id))`
  | invoke {s : Web} {w : Worker} {k : ConnId} {r : RequestId} {i : InvokeId}
      {service method requestId appId : String} {payload : Bytes} {v : System}
      (polled : s.userIds.polled w = some (.inr (k, r)))
      (one : SystemStep env debug s.system (.client k (.begin i ⟨service, method, payload,
        autoCaller (s.userIds.current w).join requestId appId⟩)) v) :
      WebStep env debug toStr s (.invoke w k r (plain s.userIds w (.inr (k, r))) i
        ⟨service, method, payload, autoCaller (s.userIds.current w).join requestId appId⟩)
        { s with system := v }
  | poll {s : Web} {a : LocalAct Worker HttpTask (Option String)}
      {l : Locals Worker HttpTask (Option String)} (other : ¬ Opens a)
      (poll : LocalStep s.userIds a l) : WebStep env debug toStr s (.poll a) { s with userIds := l }

abbrev WebRun (env : Env) (debug : BusFrame → String) (toStr : Bytes → Option String)
    (procs : Processes) (acts : List WebAct) (s : Web) : Prop :=
  Run (WebStep env debug toStr) (Web.start procs) acts s

def WebAct.ofSystem : WebAct → List SystemAct
  | .system x => [x]
  | .invoke _ k _ _ i x => [.client k (.begin i x)]
  | _ => []

def WebAct.ofLocals : WebAct → List (LocalAct Worker HttpTask (Option String))
  | .arrive w k r _ => [.start w (.inr (k, r))]
  | .middleware w k r userId => [.scope w (.inr (k, r)) userId]
  | .poll a => [a]
  | _ => []

variable {env : Env} {debug : BusFrame → String} {toStr : Bytes → Option String}
  {procs : Processes} {s s' : Web} {a : WebAct} {acts : List WebAct} {w : Worker} {j k : ConnId}
  {r : RequestId} {req : HttpRequest} {c : CallId} {i : InvokeId} {x : InvokeArgs} {inv : Invoke}
  {userId : Option String}

theorem system_run (run : WebRun env debug toStr procs acts s) :
    SystemRun env debug procs (acts.flatMap WebAct.ofSystem) s.system := by
  refine run_map Web.system WebAct.ofSystem ?_ run
  intro v a v' _ step
  cases step with
  | system one | invoke _ one => exact run_single one
  | _ => exact Run.nil

theorem locals_run (run : WebRun env debug toStr procs acts s) :
    LocalRun (acts.flatMap WebAct.ofLocals) s.userIds := by
  refine run_map Web.userIds WebAct.ofLocals ?_ run
  intro v a v' _ step
  cases step with
  | arrive _ poll | middleware _ poll | poll _ poll => exact run_single poll
  | _ => exact Run.nil

theorem setRequest_other {k' : ConnId} {r' : RequestId} {req' : HttpRequest}
    (here : s.request k r = some req) (new : s.request k' r' = none) :
    (s.setRequest k' r' req').request k r = some req := by
  by_cases conn : k = k'
  · subst conn
    have apart : r ≠ r' := by
      rintro rfl
      rw [here] at new
      cases new
    simp [Web.setRequest, apart, here]
  · simp [Web.setRequest, conn, here]

theorem request_kept : Stable (WebStep env debug toStr) (Web.start procs)
    fun s => s.request k r = some req := by
  intro v a v' _ step here
  cases step with
  | arrive new => exact setRequest_other here new
  | _ => exact here

theorem request_later (reach : Reachable (WebStep env debug toStr) (Web.start procs) s)
    (rest : Run (WebStep env debug toStr) s acts s') (here : s.request k r = some req) :
    s'.request k r = some req :=
  stable_run (p := fun s => s.request k r = some req) request_kept reach rest here

theorem middleware_user (run : WebRun env debug toStr procs acts s)
    (mem : .middleware w k r userId ∈ acts) :
    ∃ req, s.request k r = some req ∧ userId = authMiddleware toStr req := by
  obtain ⟨n, here⟩ := List.mem_iff_getElem?.mp mem
  obtain ⟨v, v', before, step, rest⟩ := run_at run here
  cases step with
  | @middleware _ _ _ req _ found poll =>
    have step : WebStep env debug toStr _ _ _ := .middleware found poll
    exact ⟨req, request_later (reachable_step ⟨_, before⟩ step) rest found, rfl⟩

theorem scope_middleware (run : WebRun env debug toStr procs acts s)
    (entered : Scoped (acts.flatMap WebAct.ofLocals) (.inr (k, r)) userId) :
    ∃ w, .middleware w k r userId ∈ acts := by
  obtain ⟨w, mem⟩ := entered
  obtain ⟨a, here, there⟩ := List.mem_flatMap.mp mem
  cases a with
  | middleware w' k' r' user =>
    simp only [WebAct.ofLocals, List.mem_singleton, LocalAct.scope.injEq, Sum.inr.injEq,
      Prod.mk.injEq] at there
    obtain ⟨rfl, ⟨rfl, rfl⟩, rfl⟩ := there
    exact ⟨w, here⟩
  | poll a =>
    simp only [WebAct.ofLocals, List.mem_singleton] at there
    subst there
    obtain ⟨n, place⟩ := List.mem_iff_getElem?.mp here
    obtain ⟨_, _, _, step, _⟩ := run_at run place
    cases step with
    | poll other => exact absurd trivial other
  | arrive => simp [WebAct.ofLocals] at there
  | system | invoke => simp [WebAct.ofLocals] at there

/-- What `auto_caller` reads in the scope of the middleware. -/
theorem plain_user (run : WebRun env debug toStr procs acts s)
    (polled : s.userIds.polled w = some (.inr (k, r)))
    (base : plain s.userIds w (.inr (k, r)) = true) :
    ∃ req, s.request k r = some req ∧ (s.userIds.current w).join = authMiddleware toStr req := by
  simp only [plain, Bool.and_eq_true, Bool.not_eq_true', beq_iff_eq] at base
  obtain ⟨fresh, alone⟩ := base
  obtain ⟨user, installed⟩ := List.length_eq_one_iff.mp alone
  obtain ⟨w', mem⟩ := scope_middleware run (current_scoped (locals_run run) polled fresh installed)
  obtain ⟨req, found, same⟩ := middleware_user run mem
  refine ⟨req, found, ?_⟩
  rw [Locals.current, installed, ← same]
  rfl

def Admits (toStr : Bytes → Option String) (req : HttpRequest) (methods : List MethodDecl)
    (method : String) : Prop :=
  ∃ before decl after, methods = before ++ decl :: after ∧ (∀ m ∈ before, m.name ≠ method) ∧
    decl.name = method ∧ (decl.requiresAuth = true → ∃ user, fromRequestParts toStr req = .ok user)

theorem admits_of_permits {methods : List MethodDecl} {method : String} {caller : CallerCtx}
    (permits : Permits methods method caller) (named : caller.userId = authMiddleware toStr req) :
    Admits toStr req methods method := by
  obtain ⟨before, decl, after, parts, earlier, same, passed⟩ := permits
  refine ⟨before, decl, after, parts, earlier, same, fun asks => ?_⟩
  rcases passed with free | known
  · rw [asks] at free
    cases free
  · rw [named] at known
    obtain ⟨user, found⟩ := Option.ne_none_iff_exists'.mp known
    exact ⟨⟨user⟩, extracted_iff.mpr found⟩

/-- The call is made in the name of the user that the request names, and nothing runs for it that
    asks for a user where the request names none. -/
structure OnBehalf (env : Env) (toStr : Bytes → Option String) (xs : List SystemAct) (u : System)
    (req : HttpRequest) (c : CallId) : Prop where
  user : (u.world.call c).caller.userId = authMiddleware toStr req
  sent : ∀ p j inv, (brokerActs xs)[p]? = some (.send c j inv) →
    inv.caller.userId = authMiddleware toStr req ∧
      ∃ m e, m < p ∧ ReadRemote env (brokerActs xs) m c e ∧ e.tx = j ∧
        Admits toStr req e.methods inv.method
  ran : ∀ p h ms, (brokerActs xs)[p]? = some (.localAdmit c h ms) →
    ∃ methods, ReadLocal env (brokerActs xs) p c h methods ∧
      Admits toStr req methods (u.world.call c).method

theorem on_behalf {u : System} {xs : List SystemAct} (run : SystemRun env debug procs xs u)
    (user : (u.world.call c).caller.userId = authMiddleware toStr req) :
    OnBehalf env toStr xs u req c where
  user := user
  sent := by
    intro p j inv here
    obtain ⟨m, e, order, read, queue, _, caller, permits⟩ := send_permitted (broker_run run) here
    have named : inv.caller.userId = authMiddleware toStr req := by rw [caller, user]
    exact ⟨named, m, e, order, read, queue, admits_of_permits permits named⟩
  ran := by
    intro p h ms here
    obtain ⟨methods, read, permits⟩ := local_permitted (broker_run run) here
    exact ⟨methods, read, admits_of_permits permits user⟩

/-- However requests are interleaved, what a handler invokes with `auto_caller` it invokes in the
    name of its own request: of the user that `TokimoUser` finds there, or of nobody. -/
theorem request_user (run : WebRun env debug toStr procs acts s)
    (made : .invoke w k r true i x ∈ acts) :
    ∃ req, s.request k r = some req ∧ x.caller.userId = authMiddleware toStr req ∧
      ∀ c, Serves (acts.flatMap WebAct.ofSystem) k i c →
        OnBehalf env toStr (acts.flatMap WebAct.ofSystem) s.system req c := by
  obtain ⟨n, here⟩ := List.mem_iff_getElem?.mp made
  obtain ⟨v, v', before, step, rest⟩ := run_at run here
  have begun : .client k (.begin i x) ∈ acts.flatMap WebAct.ofSystem :=
    List.mem_flatMap.mpr ⟨_, made, by simp [WebAct.ofSystem]⟩
  have found : ∃ req, v.request k r = some req ∧ x.caller.userId = authMiddleware toStr req := by
    generalize flag : true = plainly at step
    cases step with
    | invoke polled => exact plain_user before polled flag.symm
  obtain ⟨req, present, named⟩ := found
  have later : v'.request k r = some req := request_kept _ _ _ ⟨_, before⟩ step present
  refine ⟨req, request_later (reachable_step ⟨_, before⟩ step) rest later, named,
    fun c serves => on_behalf (system_run run) ?_⟩
  rw [served_user (system_run run) begun serves, named]

theorem system_lifts {xs : List SystemAct} {u v : System} (run : Run (SystemStep env debug) u xs v)
    (l : Locals Worker HttpTask (Option String)) (q : ConnId → RequestId → Option HttpRequest) :
    Run (WebStep env debug toStr) ⟨u, l, q⟩ (xs.map .system) ⟨v, l, q⟩ := by
  induction run with
  | nil => exact Run.nil
  | @snoc xs v v' x before last ih =>
    rw [List.map_append]
    exact ih.snoc (WebStep.system last)

def visibleText (value : Bytes) : Option String :=
  if value.all fun b => 32 ≤ b && b < 127 || b == 9 then
    some (String.ofList (value.map fun b => Char.ofNat b.toNat))
  else none

def aliceRequest : HttpRequest := ⟨[("host", []), (userHeader, [97, 108, 105, 99, 101])]⟩

def aliceInvoke : InvokeArgs :=
  ⟨"music", "ping", [5], autoCaller (some "alice") "r1" "music"⟩

def aliceActs : List WebAct :=
  joinedActs.map .system ++ [.arrive 0 0 0 aliceRequest, .middleware 0 0 0 (some "alice"),
    .invoke 0 0 0 true 0 aliceInvoke]

theorem alice_web : ∃ s, WebRun TokimoWire.standardEnv quiet visibleText pingProcs aliceActs s ∧
    s.request 0 0 = some aliceRequest := by
  have run := @system_lifts _ _ visibleText _ _ _ ping_joins (Locals.idle _ _ _) fun _ _ => none
  have run := run.snoc (@WebStep.arrive _ _ _ _ 0 0 0 aliceRequest _ rfl (.start rfl))
  have run := run.snoc (@WebStep.middleware _ _ _ _ 0 0 0 aliceRequest _ rfl (.scope rfl rfl))
  have begun : SystemStep TokimoWire.standardEnv quiet (System.pair pingProcs 0 pingWorld pingClient
      [] []) (.client 0 (.begin 0 aliceInvoke)) _ :=
    SystemStep.client (ClientStep.begin rfl (Or.inl rfl)) (by simp [Offers, on, clientReads])
  have run := run.snoc (@WebStep.invoke _ _ _ _ 0 0 0 0 "music" "ping" "r1" "music" [5] _ rfl begun)
  exact ⟨_, run, rfl⟩

theorem alice_named : ∃ s, WebRun TokimoWire.standardEnv quiet visibleText pingProcs aliceActs s ∧
    aliceInvoke.caller.userId = authMiddleware visibleText aliceRequest := by
  obtain ⟨s, run, here⟩ := alice_web
  obtain ⟨req, found, named, _⟩ := request_user run (w := 0) (k := 0) (r := 0) (i := 0)
    (x := aliceInvoke) (by simp [aliceActs])
  rw [here] at found
  cases found
  exact ⟨s, run, named⟩

end TokimoHttp

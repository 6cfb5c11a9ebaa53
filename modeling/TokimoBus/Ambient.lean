import TokimoBus.TaskLocal
import TokimoBus.EndToEnd

/-!
Whose name a handler's own calls bear. `dispatch_invoke` polls the future of a handler in a
scope of `USER_ID` that holds the user of its request, and `auto_caller` reads what is installed
on the thread. Before that future there is the closure that makes it, and the closure runs
outside the scope. The threads of all processes are numbered together; a handler may suspend,
set the user itself, open scopes of its own and make calls, in any order.
-/
namespace TokimoAmbient
open TokimoFrame TokimoBroker TokimoSession TokimoClient TokimoSystem TokimoResults TaskLocal
open TokimoConfinement TokimoOutbound LabelledRuns

abbrev Worker := Nat
abbrev Task := ConnId × TaskId
abbrev UserIds := Locals Worker Task (Option String)

def currentUserId (l : UserIds) (w : Worker) : Option String := (l.current w).join

def autoCaller (userId : Option String) (requestId appId : String) : CallerCtx :=
  ⟨userId, requestId, none, some appId⟩

/-- The handler has set the user itself, or is in a scope of its own. -/
def chosen (l : UserIds) (w : Worker) (t : Task) : Bool :=
  l.changed t || decide (1 < (l.installed w).length)

structure Ambient where
  system : System
  userIds : UserIds

def Ambient.start (procs : Processes) : Ambient := ⟨System.start procs, Locals.idle _ _ _⟩

inductive AmbientAct where
  | system (x : SystemAct)
  | handle (w : Worker) (k : ConnId) (t : TaskId) (inv : Invoke) (h : HandlerId)
  | scopeUserId (w : Worker) (k : ConnId) (t : TaskId) (userId : Option String)
  | autoCaller (w : Worker) (k : ConnId) (t : TaskId) (chosen : Bool) (ctx : CallerCtx)
  | setUserId (w : Worker) (k : ConnId) (t : TaskId) (userId : Option String)
  | enter (w : Worker) (k : ConnId) (t : TaskId) (userId : Option String)
  | leave (w : Worker) (k : ConnId) (t : TaskId)
  | invoke (w : Worker) (k : ConnId) (t : TaskId) (i : InvokeId) (x : InvokeArgs)
  | park (w : Worker) (k : ConnId) (t : TaskId)
  | resume (w : Worker) (k : ConnId) (t : TaskId)
  | handled (w : Worker) (k : ConnId) (t : TaskId) (inv : Invoke) (h : HandlerId)
    (result : Outcome)

def handles : SystemAct → Bool
  | .client _ (.handle _ _ _) | .client _ (.handled _ _ _ _) => true
  | _ => false

inductive AmbientStep (env : Env) (debug : BusFrame → String) :
    Ambient → AmbientAct → Ambient → Prop where
  | system {s : Ambient} {x : SystemAct} {v : System} (other : handles x = false)
      (one : SystemStep env debug s.system x v) :
      AmbientStep env debug s (.system x) ⟨v, s.userIds⟩
  -- `h(req)` begins, in the first poll of the task and in no scope
  | handle {s : Ambient} {w : Worker} {k : ConnId} {t : TaskId} {inv : Invoke} {h : HandlerId}
      {v : System} {l : UserIds} (one : SystemStep env debug s.system (.client k (.handle t inv h)) v)
      (poll : LocalStep s.userIds (.start w (k, t)) l) :
      AmbientStep env debug s (.handle w k t inv h) ⟨v, l⟩
  -- it has returned its future, which `scope_user_id` polls
  | scopeUserId {s : Ambient} {w : Worker} {k : ConnId} {t : TaskId} {inv : Invoke} {h : HandlerId}
      {l : UserIds} (here : (s.system.client k).task t = .running inv h)
      (poll : LocalStep s.userIds (.scope w (k, t) inv.caller.userId) l) :
      AmbientStep env debug s (.scopeUserId w k t inv.caller.userId) ⟨s.system, l⟩
  | autoCaller {s : Ambient} {w : Worker} {k : ConnId} {t : TaskId} {inv : Invoke} {h : HandlerId}
      {requestId appId : String} (here : (s.system.client k).task t = .running inv h)
      (polled : s.userIds.polled w = some (k, t)) :
      AmbientStep env debug s (.autoCaller w k t (chosen s.userIds w (k, t))
        (autoCaller (currentUserId s.userIds w) requestId appId)) s
  | setUserId {s : Ambient} {w : Worker} {k : ConnId} {t : TaskId} {userId : Option String}
      {inv : Invoke} {h : HandlerId} {l : UserIds}
      (here : (s.system.client k).task t = .running inv h)
      (poll : LocalStep s.userIds (.set w (k, t) userId) l) :
      AmbientStep env debug s (.setUserId w k t userId) ⟨s.system, l⟩
  | enter {s : Ambient} {w : Worker} {k : ConnId} {t : TaskId} {userId : Option String}
      {inv : Invoke} {h : HandlerId} {l : UserIds}
      (here : (s.system.client k).task t = .running inv h)
      (poll : LocalStep s.userIds (.enter w (k, t) userId) l) :
      AmbientStep env debug s (.enter w k t userId) ⟨s.system, l⟩
  | leave {s : Ambient} {w : Worker} {k : ConnId} {t : TaskId} {inv : Invoke} {h : HandlerId}
      {l : UserIds} (here : (s.system.client k).task t = .running inv h)
      (poll : LocalStep s.userIds (.leave w (k, t)) l) :
      AmbientStep env debug s (.leave w k t) ⟨s.system, l⟩
  | invoke {s : Ambient} {w : Worker} {k : ConnId} {t : TaskId} {i : InvokeId} {x : InvokeArgs}
      {inv : Invoke} {h : HandlerId} {v : System}
      (here : (s.system.client k).task t = .running inv h)
      (polled : s.userIds.polled w = some (k, t))
      (one : SystemStep env debug s.system (.client k (.begin i x)) v) :
      AmbientStep env debug s (.invoke w k t i x) ⟨v, s.userIds⟩
  | park {s : Ambient} {w : Worker} {k : ConnId} {t : TaskId} {inv : Invoke} {h : HandlerId}
      {l : UserIds} (here : (s.system.client k).task t = .running inv h)
      (poll : LocalStep s.userIds (.park w (k, t)) l) :
      AmbientStep env debug s (.park w k t) ⟨s.system, l⟩
  | resume {s : Ambient} {w : Worker} {k : ConnId} {t : TaskId} {inv : Invoke} {h : HandlerId}
      {l : UserIds} (here : (s.system.client k).task t = .running inv h)
      (poll : LocalStep s.userIds (.resume w (k, t)) l) :
      AmbientStep env debug s (.resume w k t) ⟨s.system, l⟩
  -- the future is ready; what its task still does reads no task-local
  | handled {s : Ambient} {w : Worker} {k : ConnId} {t : TaskId} {inv : Invoke} {h : HandlerId}
      {result : Outcome} {v : System} {l : UserIds}
      (one : SystemStep env debug s.system (.client k (.handled t inv h result)) v)
      (poll : LocalStep s.userIds (.finish w (k, t)) l) :
      AmbientStep env debug s (.handled w k t inv h result) ⟨v, l⟩

abbrev AmbientRun (env : Env) (debug : BusFrame → String) (procs : Processes)
    (acts : List AmbientAct) (s : Ambient) : Prop :=
  Run (AmbientStep env debug) (Ambient.start procs) acts s

def AmbientAct.ofSystem : AmbientAct → List SystemAct
  | .system x => [x]
  | .handle _ k t inv h => [.client k (.handle t inv h)]
  | .invoke _ k _ i x => [.client k (.begin i x)]
  | .handled _ k t inv h result => [.client k (.handled t inv h result)]
  | _ => []

def AmbientAct.ofLocals : AmbientAct → List (LocalAct Worker Task (Option String))
  | .handle w k t _ _ => [.start w (k, t)]
  | .scopeUserId w k t userId => [.scope w (k, t) userId]
  | .setUserId w k t userId => [.set w (k, t) userId]
  | .enter w k t userId => [.enter w (k, t) userId]
  | .leave w k t => [.leave w (k, t)]
  | .park w k t => [.park w (k, t)]
  | .resume w k t => [.resume w (k, t)]
  | .handled w k t _ _ _ => [.finish w (k, t)]
  | _ => []

def systemActs (acts : List AmbientAct) : List SystemAct := acts.flatMap AmbientAct.ofSystem

variable {env : Env} {debug : BusFrame → String} {procs : Processes} {s s' : Ambient}
  {a : AmbientAct} {acts : List AmbientAct} {w : Worker} {j k : ConnId} {t : TaskId} {c : CallId}
  {inv inv' : Invoke} {h : HandlerId} {ctx : CallerCtx} {userId : Option String}

theorem system_run (run : AmbientRun env debug procs acts s) :
    SystemRun env debug procs (systemActs acts) s.system := by
  refine run_map Ambient.system AmbientAct.ofSystem ?_ run
  intro v a v' _ step
  cases step with
  | system _ one | handle one | invoke _ _ one | handled one => exact run_single one
  | _ => exact Run.nil

theorem locals_run (run : AmbientRun env debug procs acts s) :
    LocalRun (acts.flatMap AmbientAct.ofLocals) s.userIds := by
  refine run_map Ambient.userIds AmbientAct.ofLocals ?_ run
  intro v a v' _ step
  cases step with
  | handle _ poll | scopeUserId _ poll | setUserId _ poll | enter _ poll | leave _ poll | park _ poll
  | resume _ poll | handled _ poll => exact run_single poll
  | _ => exact Run.nil

def Requested (acts : List AmbientAct) (k : ConnId) (t : TaskId) (inv : Invoke) : Prop :=
  .client k (.invoke inv t) ∈ systemActs acts

theorem requested_once (run : AmbientRun env debug procs acts s)
    (first : Requested acts k t inv) (second : Requested acts k t inv') : inv = inv' :=
  invoked_once (client_run (system_run run) k) (mem_clientActs.mpr first) (mem_clientActs.mpr second)

theorem running_requested (run : AmbientRun env debug procs acts s)
    (here : (s.system.client k).task t = .running inv h) : Requested acts k t inv := by
  have process := client_run (system_run run) k
  exact mem_clientActs.mp (handle_invoked process (running_handle process here)).1

theorem requested_later {n : Nat} (mem : Requested (acts.take n) k t inv) :
    Requested acts k t inv := by
  obtain ⟨a, there, here⟩ := List.mem_flatMap.mp mem
  exact List.mem_flatMap.mpr ⟨a, List.mem_of_mem_take there, here⟩

theorem scoped_requested (run : AmbientRun env debug procs acts s)
    (mem : .scopeUserId w k t userId ∈ acts) :
    ∃ inv, Requested acts k t inv ∧ userId = inv.caller.userId := by
  obtain ⟨n, here⟩ := List.mem_iff_getElem?.mp mem
  obtain ⟨v, _, before, step, _⟩ := run_at run here
  cases step with
  | scopeUserId running => exact ⟨_, requested_later (running_requested before running), rfl⟩

theorem installed_requested (run : AmbientRun env debug procs acts s)
    (here : (s.system.client k).task t = .running inv h)
    (polled : s.userIds.polled w = some (k, t)) (fresh : s.userIds.changed (k, t) = false)
    (base : s.userIds.installed w = [userId]) : userId = inv.caller.userId := by
  obtain ⟨x, made⟩ := current_scoped (locals_run run) polled fresh base
  obtain ⟨a, mem, there⟩ := List.mem_flatMap.mp made
  have act : a = .scopeUserId x k t userId := by
    cases a <;> simp [AmbientAct.ofLocals] at there
    obtain ⟨rfl, ⟨rfl, rfl⟩, rfl⟩ := there
    rfl
  subst act
  obtain ⟨inv', requested, same⟩ := scoped_requested run mem
  rw [same, requested_once run requested (running_requested run here)]

/-- Unless the handler has chosen a user itself, `auto_caller` names the user of its request. -/
def Follows (s : Ambient) : AmbientAct → Prop
  | .autoCaller _ k t false ctx =>
    ∀ inv h, (s.system.client k).task t = .running inv h → ctx.userId = inv.caller.userId
  | _ => True

/-- The closure of a handler does not call `auto_caller` before it has returned its future,
    unless the request has no user. -/
def InScope (s : Ambient) : AmbientAct → Prop
  | .autoCaller w k t false _ => s.userIds.installed w = [] →
    ∀ inv h, (s.system.client k).task t = .running inv h → inv.caller.userId = none
  | _ => True

theorem follows_iff (run : AmbientRun env debug procs acts s)
    (step : AmbientStep env debug s a s') : Follows s a ↔ InScope s a := by
  cases step with
  | @autoCaller w k t inv h requestId appId here polled =>
    cases own : chosen s.userIds w (k, t) with
    | true => exact Iff.rfl
    | false =>
      simp only [chosen, Bool.or_eq_false_iff, decide_eq_false_iff_not] at own
      obtain ⟨fresh, shallow⟩ := own
      cases values : s.userIds.installed w with
      | nil =>
        have absent : currentUserId s.userIds w = none := by
          simp [currentUserId, Locals.current, values]
        simp only [Follows, InScope, autoCaller, absent, values, forall_const]
        constructor
        · intro same inv h running
          exact (same inv h running).symm
        · intro none inv h running
          exact (none inv h running).symm
      | cons userId rest =>
        have base : rest = [] := by
          rw [values, List.length_cons] at shallow
          exact List.eq_nil_of_length_eq_zero (by omega)
        subst base
        have present : currentUserId s.userIds w = userId := by
          simp [currentUserId, Locals.current, values]
        simp only [Follows, InScope, autoCaller, present, values]
        constructor
        · intro _ empty
          cases empty
        · intro _ inv' h' running
          exact installed_requested run running polled fresh values
  | _ => exact Iff.rfl

inductive Handler where
  | app (k : ConnId) (t : TaskId)
  | host (c : CallId)

/-- The handler of the task has made an invoke with a CallerCtx from `auto_caller`, and the
    broker serves it by the call. -/
structure Nests (acts : List AmbientAct) (k : ConnId) (t : TaskId) (c : CallId) (w w' : Worker)
    (i : InvokeId) (x : InvokeArgs) (inv : Invoke) : Prop where
  built : .autoCaller w k t false x.caller ∈ acts
  made : .invoke w' k t i x ∈ acts
  sent : .client k (.send i inv) ∈ systemActs acts
  spawned : .broker (.spawn k inv c) ∈ systemActs acts

inductive Chain (acts : List AmbientAct) (k : ConnId) (t : TaskId) : Handler → Prop where
  | first : Chain acts k t (.app k t)
  | app {k' j : ConnId} {t' t'' : TaskId} {c : CallId} {w w' : Worker} {i : InvokeId}
      {x : InvokeArgs} {inv inv' : Invoke} (before : Chain acts k t (.app k' t'))
      (nests : Nests acts k' t' c w w' i x inv) (sent : .broker (.send c j inv') ∈ systemActs acts)
      (read : Requested acts j t'' inv') : Chain acts k t (.app j t'')
  | host {k' : ConnId} {t' : TaskId} {c : CallId} {w w' : Worker} {i : InvokeId}
      {x : InvokeArgs} {inv : Invoke} {h : HandlerId} {ms : Option (List MethodDecl)}
      (before : Chain acts k t (.app k' t')) (nests : Nests acts k' t' c w w' i x inv)
      (ran : .broker (.localAdmit c h ms) ∈ systemActs acts) : Chain acts k t (.host c)

def Sees (acts : List AmbientAct) (s : Ambient) (userId : Option String) : Handler → Prop
  | .app k t => ∀ inv, Requested acts k t inv → inv.caller.userId = userId
  | .host c => (s.system.world.call c).caller.userId = userId

/-- The last handler of a chain sees the user of the first request. -/
def UserKept (acts : List AmbientAct) (s : Ambient) : Prop :=
  ∀ k t inv, Requested acts k t inv → ∀ last, Chain acts k t last →
    Sees acts s inv.caller.userId last

theorem caller_running {own : Bool}
    (step : AmbientStep env debug s (.autoCaller w k t own ctx) s') :
    s' = s ∧ ∃ inv h, (s.system.client k).task t = .running inv h := by
  cases step with
  | autoCaller here => exact ⟨rfl, _, _, here⟩

theorem built_follows (run : Run (Guarded (AmbientStep env debug) InScope) (Ambient.start procs) acts s)
    (mem : .autoCaller w k t false ctx ∈ acts) :
    ∃ inv, Requested acts k t inv ∧ ctx.userId = inv.caller.userId := by
  obtain ⟨n, here⟩ := List.mem_iff_getElem?.mp mem
  obtain ⟨v, _, before, ⟨step, good⟩, _⟩ := run_at run here
  have past := guarded_run before
  have follows := (follows_iff past step).mpr good
  obtain ⟨_, inv, h, running⟩ := caller_running step
  exact ⟨inv, requested_later (running_requested past running), follows inv h running⟩

theorem served_user {x : InvokeArgs} {i : InvokeId} {u : System} {xs : List SystemAct}
    (run : SystemRun env debug procs xs u) (begun : .client k (.begin i x) ∈ xs)
    (serves : Serves xs k i c) : (u.world.call c).caller.userId = x.caller.userId := by
  obtain ⟨inv, sent, spawned⟩ := serves
  have process := client_run run k
  have broker := broker_run run
  -- the invoke queues what it was begun with
  have args := begun_args process (mem_clientActs.mpr begun)
  have frame := (send_frame process (mem_clientActs.mpr sent)).1
  rw [args] at frame
  have dotted : splitOnce inv.method ≠ none := by
    rw [frame]
    exact splitOnce_dotted (by simp [InvokeArgs.frame])
  -- and the broker passes it on under the same user
  obtain ⟨started, app⟩ := spawned_call broker (mem_brokerActs.mpr spawned)
  obtain ⟨⟨ses, _, same⟩, _⟩ := app_call ⟨_, broker⟩ started app
  rw [same, (appCall_stamped dotted).user, frame]
  rfl

/-- The call that serves a nested invoke bears the user that `auto_caller` named. -/
theorem nested_user {w' : Worker} {i : InvokeId} {x : InvokeArgs}
    (run : AmbientRun env debug procs acts s) (nests : Nests acts k t c w w' i x inv) :
    (s.system.world.call c).caller.userId = x.caller.userId :=
  served_user (system_run run)
    (List.mem_flatMap.mpr ⟨_, nests.made, by simp [AmbientAct.ofSystem]⟩)
    ⟨inv, nests.sent, nests.spawned⟩

theorem chain_sees (run : Run (Guarded (AmbientStep env debug) InScope) (Ambient.start procs) acts s)
    (requested : Requested acts k t inv) {last : Handler} (chain : Chain acts k t last) :
    Sees acts s inv.caller.userId last := by
  have plain := guarded_run run
  have nested : ∀ {k' : ConnId} {t' : TaskId} {c : CallId} {w w' : Worker} {i : InvokeId}
      {x : InvokeArgs} {inv' : Invoke}, Sees acts s inv.caller.userId (.app k' t') →
      Nests acts k' t' c w w' i x inv' →
      (s.system.world.call c).caller.userId = inv.caller.userId := by
    intro k' t' c w w' i x inv' sees nests
    obtain ⟨own, known, follows⟩ := built_follows run nests.built
    rw [nested_user plain nests, follows]
    exact sees own known
  induction chain with
  | first =>
    intro other known
    rw [requested_once plain known requested]
  | app before nests sent read ih =>
    intro other known
    have frame := send_args (broker_run (system_run plain)) (mem_brokerActs.mpr sent)
    rw [requested_once plain known read, frame]
    exact nested ih nests
  | host before nests ran ih => exact nested ih nests

/-- In which runs the user follows the calls. -/
theorem user_follows_iff (env : Env) (debug : BusFrame → String) (procs : Processes)
    (acts : List AmbientAct) (s : Ambient) :
    (Run (Guarded (AmbientStep env debug) Follows) (Ambient.start procs) acts s ∧
        UserKept acts s) ↔
      Run (Guarded (AmbientStep env debug) InScope) (Ambient.start procs) acts s := by
  have same : Run (Guarded (AmbientStep env debug) Follows) (Ambient.start procs) acts s ↔
      Run (Guarded (AmbientStep env debug) InScope) (Ambient.start procs) acts s := by
    apply guarded_congr
    rintro v a v' ⟨before, run⟩ step
    exact follows_iff run step
  constructor
  · rintro ⟨follows, _⟩
    exact same.mp follows
  · intro inside
    refine ⟨same.mpr inside, ?_⟩
    intro k t inv requested last chain
    exact chain_sees inside requested chain

theorem system_lifts {xs : List SystemAct} {u v : System} (l : UserIds)
    (run : Run (SystemStep env debug) u xs v) (other : ∀ x ∈ xs, handles x = false) :
    Run (AmbientStep env debug) ⟨u, l⟩ (xs.map .system) ⟨v, l⟩ := by
  induction run with
  | nil => exact Run.nil
  | @snoc xs v v' x before last ih =>
    rw [List.map_append]
    have first := ih fun y mem => other y (List.mem_append_left _ mem)
    exact first.snoc (AmbientStep.system (other x (by simp)) last)

def aliceCall : Call :=
  ⟨.host, "music", "ping", [5], ⟨some "alice", "r1", none, none⟩, Duration.zero⟩

def aliceInvoke : Invoke := aliceCall.invoke 1

def aliceActs : List Act :=
  TokimoProgress.queueActs 1 aliceCall pingSession 0 1 ++
    [Act.writer 0 (.recv (.invoke aliceInvoke)), .writer 0 (.wrote (.invoke aliceInvoke))]

/-- The closure of the app's handler calls `auto_caller` before it makes its future. -/
def earlyActs : List AmbientAct :=
  (joinedActs ++ aliceActs.map SystemAct.broker ++
      [SystemAct.client 0 (.invoke aliceInvoke 0)]).map .system ++
    [AmbientAct.handle 0 0 0 aliceInvoke 3]

theorem alice_run : ∃ s, AmbientRun TokimoWire.standardEnv quiet pingProcs earlyActs s ∧
    (s.system.client 0).task 0 = .running aliceInvoke 3 ∧ s.userIds.polled 0 = some (0, 0) ∧
      s.userIds.installed 0 = [] ∧ s.userIds.changed (0, 0) = false := by
  have fits : Fits TokimoWire.toVecNamed (.invoke aliceInvoke) := by decide +kernel
  obtain ⟨bytes, written⟩ := fits_iff_written.mp fits
  have connected : TokimoProgress.Connected pingWorld 0 pingSession :=
    TokimoProgress.connected_after TokimoWire.standardEnv _ 0 pingHello 0
  have queued : Run (Step TokimoWire.standardEnv) pingWorld
      (TokimoProgress.queueActs 1 aliceCall pingSession 0 1) _ :=
    TokimoProgress.call_queues connected rfl rfl rfl rfl rfl
  have sent := queued.snoc (Step.writer (k := 0) (.recv rfl rfl))
  have sent := sent.snoc (Step.writer (k := 0) (.wrote rfl written))
  have run := run_append ping_joins (@broker_moves _ _ _ 0 _ _ _ _ _ _ [] sent
    (by simp [TokimoProgress.queueActs, TokimoProgress.registerActs, brokerReads, brokerWrites]) rfl)
  have run := run_append run (@client_moves _ _ _ 0 _ _ _ _ _ _ []
    (run_single (@ClientStep.invoke _ _ _ aliceInvoke 0 rfl rfl)) rfl)
  have run := system_lifts (Locals.idle _ _ _) run (by decide)
  have handled := run.snoc (AmbientStep.handle (w := 0) (k := 0) (t := 0) (h := 3)
    (SystemStep.client (ClientStep.handle rfl rfl) (by simp [Offers, clientReads, on]))
    (LocalStep.start rfl))
  exact ⟨_, handled, rfl, rfl, rfl, rfl⟩

theorem early_caller_anonymous :
    ¬ ∀ acts s, AmbientRun TokimoWire.standardEnv quiet pingProcs acts s →
      Run (Guarded (AmbientStep TokimoWire.standardEnv quiet) Follows) (Ambient.start pingProcs)
        acts s ∧ UserKept acts s := by
  intro claim
  obtain ⟨s, run, running, polled, bare, fresh⟩ := alice_run
  have called := @AmbientStep.autoCaller TokimoWire.standardEnv quiet s 0 0 0 aliceInvoke 3 "r2"
    "music" running polled
  obtain ⟨v, _, step, follows⟩ := run_snoc_inv (claim _ _ (run.snoc called)).1
  obtain ⟨rfl, _⟩ := caller_running step
  have own : chosen s.userIds 0 (0, 0) = false := by simp [chosen, bare, fresh]
  rw [own] at follows
  have named := follows aliceInvoke 3 running
  simp [autoCaller, currentUserId, Locals.current, bare, aliceInvoke, aliceCall, Call.invoke] at named

end TokimoAmbient

import TokimoBus.Progress

/-!
The authorization gate. A call reaches an app's channel or a local handler only if the
catalogue it read permits its method for its caller, the two gates give the same
verdict, and a call that a gate refuses leaves every shared table as it found it.
-/
namespace TokimoGate
open TokimoFrame TokimoOutbound TokimoBroker TokimoSession TokimoWire TokimoCalls
open TokimoProgress LabelledRuns
variable {env : Env} {w w' : World} {a b : Act} {acts : List Act} {c : CallId}

/-- The first declaration of `method` is open to everybody, or the caller is known. -/
def Permits (methods : List MethodDecl) (method : String) (caller : CallerCtx) : Prop :=
  ∃ before decl after, methods = before ++ decl :: after ∧ (∀ m ∈ before, m.name ≠ method) ∧
    decl.name = method ∧ (decl.requiresAuth = false ∨ caller.userId ≠ none)

theorem remoteGate_ok_iff {e : ServiceEntry} {service method : String} {caller : CallerCtx} :
    remoteGate e service method caller = .ok () ↔ Permits e.methods method caller := by
  unfold remoteGate Permits
  constructor
  · intro ok
    split at ok
    · cases ok
    · rename_i decl found
      obtain ⟨named, before, after, parts, earlier⟩ := List.find?_eq_some_iff_append.mp found
      refine ⟨before, decl, after, parts, ?_, by simpa using named, ?_⟩
      · intro m mem
        simpa using earlier m mem
      · by_contra shut
        simp only [not_or, Bool.not_eq_false, not_not] at shut
        simp [shut.1, shut.2] at ok
  · rintro ⟨before, decl, after, parts, earlier, named, passed⟩
    have found : e.methods.find? (fun m => m.name == method) = some decl := by
      refine List.find?_eq_some_iff_append.mpr ⟨by simpa using named, before, after, parts, ?_⟩
      intro m mem
      simpa using earlier m mem
    simp only [found]
    rcases passed with free | known
    · simp [free]
    · cases user : caller.userId with
      | none => exact absurd user known
      | some _ => simp

theorem gates_agree (e : ServiceEntry) (service method : String) (caller : CallerCtx) :
    localGate (some e.methods) service method caller = remoteGate e service method caller := rfl

theorem localGate_ok_iff {methods : List MethodDecl} {service method : String}
    {caller : CallerCtx} :
    localGate (some methods) service method caller = .ok () ↔ Permits methods method caller :=
  remoteGate_ok_iff (e := ⟨service, 0, 0, methods, 0, none⟩)

theorem methods_kept (h : Step env w a w') {service : String}
    (known : w.broker.localServiceMethods service ≠ none) :
    w'.broker.localServiceMethods service ≠ none := by
  cases h with
  | @registerMethods n s ms hd new =>
    by_cases same : service = s
    · subst same
      simp [World.setRegistering, World.withBroker, Broker.storeLocalMethods]
    · simpa [World.setRegistering, World.withBroker, Broker.storeLocalMethods, same] using known
  | _ => exact known

structure Catalogued (w : World) : Prop where
  handlers : ∀ s, w.broker.localServices s ≠ none → w.broker.localServiceMethods s ≠ none
  registering : ∀ n s h, w.registering n = some (s, h) → w.broker.localServiceMethods s ≠ none
  gated : ∀ c h, w.callPhase c = .localGate h →
    w.broker.localServiceMethods (w.call c).service ≠ none

theorem handlers_step (h : Step env w a w') (known : Catalogued w) {s : String}
    (found : w'.broker.localServices s ≠ none) : w.broker.localServiceMethods s ≠ none := by
  cases h with
  | @registerHandler n service hd ready =>
    by_cases same : s = service
    · subst same
      exact known.registering n s hd ready
    · refine known.handlers s ?_
      simpa [World.setRegistering, World.withBroker, Broker.storeLocalHandler, same] using found
  | _ => exact known.handlers s found

theorem registering_step (h : Step env w a w') (known : Catalogued w) {n : Nat} {s : String}
    {hd : HandlerId} (found : w'.registering n = some (s, hd)) :
    w'.broker.localServiceMethods s ≠ none := by
  have kept : w.broker.localServiceMethods s ≠ none → w'.broker.localServiceMethods s ≠ none :=
    methods_kept h
  cases h with
  | @registerMethods m service ms hd' new =>
    by_cases same : n = m
    · subst same
      simp only [World.setRegistering, Function.update_self, Option.some.injEq,
        Prod.mk.injEq] at found
      obtain ⟨rfl, _⟩ := found
      simp [World.setRegistering, World.withBroker, Broker.storeLocalMethods]
    · simp only [World.setRegistering, Function.update_of_ne same] at found
      exact kept (known.registering n s hd found)
  | @registerHandler m service hd' ready =>
    by_cases same : n = m
    · subst same
      simp [World.setRegistering] at found
    · simp only [World.setRegistering, Function.update_of_ne same] at found
      exact known.registering n s hd found
  | _ => exact known.registering n s hd found

theorem localLookup_found (h : Step env w (.localLookup c (some hd)) w') :
    w.callPhase c = .start ∧ w.broker.localServices (w.call c).service = some hd := by
  cases h with
  | localHit here found => exact ⟨here, found⟩

theorem handler_iff {p : CallPhase} {hd : HandlerId} :
    handler p = some hd ↔ p = .localGate hd := by
  cases p <;> simp [handler]

theorem catalogued_step : Stable (Step env) World.init Catalogued := by
  intro w a w' _ h known
  refine ⟨?_, ?_, ?_⟩
  · intro s found
    exact methods_kept h (handlers_step h known found)
  · intro n s hd found
    exact registering_step h known found
  · intro c hd here
    rcases (step_gains h c).handler hd (handler_iff.mpr here) with old | rfl
    · have gated := handler_iff.mp old
      rw [call_keeps h (by simp [gated])]
      exact methods_kept h (known.gated c hd gated)
    · obtain ⟨start, found⟩ := localLookup_found h
      rw [call_keeps h (by simp [start])]
      refine methods_kept h (known.handlers _ ?_)
      simp [found]

theorem catalogued (reach : BrokerReachable env w) : Catalogued w := by
  refine reachable_invariant ⟨?_, ?_, ?_⟩ catalogued_step reach
  · intro s found
    exact absurd rfl found
  · intro n s hd found
    cases found
  · intro c hd here
    cases here

theorem permit_reads (h : Step env w (.permit c e) w') :
    w.broker.registry.get (w.call c).service = some e ∧
      Permits e.methods (w.call c).method (w.call c).caller := by
  cases h with
  | permit _ found passed => exact ⟨found, remoteGate_ok_iff.mp passed⟩

/-- At position `i` of the trace, call `c` read this catalogue for its service: from the
    registry, or from the local one. -/
def ReadRemote (env : Env) (acts : List Act) (i : Nat) (c : CallId) (e : ServiceEntry) : Prop :=
  acts[i]? = some (.permit c e) ∧
    ∃ v, BrokerRun env (acts.take i) v ∧ v.broker.registry.get (v.call c).service = some e

def ReadLocal (env : Env) (acts : List Act) (i : Nat) (c : CallId) (h : HandlerId)
    (methods : List MethodDecl) : Prop :=
  acts[i]? = some (.localAdmit c h (some methods)) ∧
    ∃ v, BrokerRun env (acts.take i) v ∧
      v.broker.localServiceMethods (v.call c).service = some methods

theorem send_permitted (run : BrokerRun env acts w) {i : Nat} {k : ConnId} {inv : Invoke}
    (here : acts[i]? = some (.send c k inv)) :
    ∃ j e, j < i ∧ ReadRemote env acts j c e ∧ e.tx = k ∧ inv.method = (w.call c).method ∧
      inv.caller = (w.call c).caller ∧ Permits e.methods inv.method inv.caller := by
  obtain ⟨v, v', before, one, after⟩ := run_at run here
  cases one with
  | @send _ e _ r sending alive =>
    have admitted : Act.permit c e ∈ acts.take i := entry_history before (by simp [sending, entry])
    obtain ⟨j, order, there⟩ := mem_take_index admitted
    obtain ⟨x, y, first, reading, rest⟩ := run_at run there
    obtain ⟨found, permits⟩ := permit_reads reading
    have begun : v.callPhase c ≠ .unused := by simp [sending]
    have args := call_fixed ⟨_, before⟩ (run_cons (Step.send sending alive) after) begun
    have fixed : w.call c = x.call c := by
      refine call_fixed ⟨_, first⟩ (run_cons reading rest) ?_
      cases reading with
      | permit now => simp [now]
    refine ⟨j, e, order, ⟨there, x, first, found⟩, rfl, ?_, ?_, ?_⟩
    · simp [Call.invoke, args]
    · simp [Call.invoke, args]
    · simpa [Call.invoke, ← args, fixed] using permits

theorem local_permitted (run : BrokerRun env acts w) {i : Nat} {h : HandlerId}
    {ms : Option (List MethodDecl)} (here : acts[i]? = some (.localAdmit c h ms)) :
    ∃ methods, ReadLocal env acts i c h methods ∧
      Permits methods (w.call c).method (w.call c).caller := by
  obtain ⟨v, v', before, one, after⟩ := run_at run here
  have args : w.call c = v.call c := by
    refine call_fixed ⟨_, before⟩ (run_cons one after) ?_
    cases one with
    | localAdmit gated => simp [gated]
  cases one with
  | localAdmit gated catalogue passed =>
    have known := (catalogued ⟨_, before⟩).gated c h gated
    obtain ⟨methods, found⟩ := Option.ne_none_iff_exists'.mp known
    rw [found] at catalogue
    subst catalogue
    refine ⟨methods, ⟨here, v, before, found⟩, ?_⟩
    rw [args]
    exact localGate_ok_iff.mp passed

def ownCall : Act → Option CallId
  | .localLookup c _ | .localAdmit c _ _ | .localRefuse c _ _ | .localReturn c _ _
  | .localTimeout c | .lookupNone c | .permit c _ | .refuse c _ _ | .routeNone c | .route c _
  | .number c _ _ | .register c _ _ | .send c _ _ | .sendClosed c | .complete c _
  | .senderGone c | .elapse c | .expire c _ _ | .cancel c => some c
  | _ => none

def writesFor : Act → Option CallId
  | .number c _ _ | .register c _ _ | .send c _ _ | .expire c _ _ => some c
  | _ => none

def refusal : Act → Option CallId
  | .refuse c _ _ | .localRefuse c _ _ => some c
  | _ => none

structure SameTables (v w : World) : Prop where
  broker : w.broker = v.broker
  phase : w.phase = v.phase
  out : w.out = v.out
  pendingOut : w.pendingOut = v.pendingOut
  nextReqId : w.nextReqId = v.nextReqId
  reply : w.reply = v.reply

theorem own_step_writes (h : Step env w a w') (own : ownCall a = some c)
    (reads : writesFor a = none) : SameTables w w' := by
  cases h with
  | localHit | localMiss | localAdmit | localRefuse | localReturn | localTimeout | lookupNone
  | permit | refuse | routeNone | route | sendClosed | complete | senderGone | elapse
  | cancelStart | cancelLocal | cancelAwait => exact ⟨rfl, rfl, rfl, rfl, rfl, rfl⟩
  | number | register | send | expire => simp [writesFor] at reads
  | _ => simp [ownCall] at own

theorem refusal_rank (h : Step env w a w') (refused : refusal a = some c) :
    (w.callPhase c).rank ≤ 4 ∧ 11 ≤ (w'.callPhase c).rank := by
  cases h with
  | refuse here | localRefuse here =>
    simp only [refusal, Option.some.injEq] at refused
    subst refused
    simp [here, World.setCallPhase, CallPhase.rank]
  | _ => simp [refusal] at refused

theorem writes_rank (h : Step env w a w') (writes : writesFor a = some c) :
    (w.callPhase c).rank ≤ 10 ∧ 5 ≤ (w'.callPhase c).rank := by
  cases h with
  | number here | register here | send here | expire here =>
    simp only [writesFor, Option.some.injEq] at writes
    subst writes
    simp [here, World.setCallPhase, World.takeReqId, World.setPending, CallPhase.rank]
  | _ => simp [writesFor] at writes

/-- A call that a gate refuses never writes a shared table. -/
theorem refused_never_writes (run : BrokerRun env acts w) {i j : Nat}
    (here : acts[i]? = some a) (refused : refusal a = some c) (there : acts[j]? = some b) :
    writesFor b ≠ some c := by
  intro writes
  rcases Nat.lt_trichotomy i j with earlier | same | later
  · obtain ⟨v, _, _, one, high⟩ := holds_at_later (rank_stable c 11) run here there earlier
      (fun v w _ first => (refusal_rank first refused).2)
    have low := (writes_rank one writes).1
    omega
  · subst same
    rw [here] at there
    cases there
    cases a <;> simp [refusal, writesFor] at refused writes
  · obtain ⟨v, _, _, one, high⟩ := holds_at_later (rank_stable c 5) run there here later
      (fun v w _ first => (writes_rank first writes).2)
    have low := (refusal_rank one refused).1
    omega

theorem invoke_queued_by_send (run : BrokerRun env acts w) {k : ConnId} {inv : Invoke}
    (queued : .invoke inv ∈ (w.out k).queue) : ∃ c, .send c k inv ∈ acts := by
  obtain ⟨a, mem, same⟩ := queued_history run queued
  cases a with
  | send c j inv' =>
    simp only [queues, Option.some.injEq, Prod.mk.injEq, BusFrame.invoke.injEq] at same
    obtain ⟨rfl, rfl⟩ := same
    exact ⟨c, mem⟩
  | _ => simp [queues] at same

/-- The gate holds on every route a call can take, both versions of it agree, and a refused
    call leaves the broker as it was. -/
theorem gate_enforced (run : BrokerRun env acts w) :
    (∀ k inv, .invoke inv ∈ (w.out k).queue → ∃ c, .send c k inv ∈ acts) ∧
    (∀ i c k inv, At acts i (.send c k inv) → ∃ j e, j < i ∧ ReadRemote env acts j c e ∧
      e.tx = k ∧ inv.method = (w.call c).method ∧ inv.caller = (w.call c).caller ∧
      Permits e.methods inv.method inv.caller) ∧
    (∀ i c h ms, At acts i (.localAdmit c h ms) → ∃ methods,
      ReadLocal env acts i c h methods ∧ Permits methods (w.call c).method (w.call c).caller) ∧
    (∀ e service method caller,
      localGate (some e.methods) service method caller = remoteGate e service method caller) ∧
    ∀ a b c v v', a ∈ acts → refusal a = some c → b ∈ acts → ownCall b = some c →
      Step env v b v' → SameTables v v' := by
  refine ⟨fun k inv queued => invoke_queued_by_send run queued,
    fun i c k inv here => send_permitted run here,
    fun i c h ms here => local_permitted run here, gates_agree, ?_⟩
  intro a b c v v' mem refused mem' own step
  obtain ⟨i, here⟩ := List.mem_iff_getElem?.mp mem
  obtain ⟨j, there⟩ := List.mem_iff_getElem?.mp mem'
  have quiet := refused_never_writes run here refused there
  refine own_step_writes step own ?_
  cases b <;> simp_all [ownCall, writesFor]

def localActs : List Act :=
  [.registerMethods 0 "jobs" [openMethod "run"] 4, .registerHandler 0 "jobs" 4,
    .call 0 (hostCall "jobs" "run" Duration.zero), .localLookup 0 (some 4),
    .localAdmit 0 4 (some [openMethod "run"])]

theorem local_run : ∃ w, BrokerRun standardEnv localActs w ∧
    w.call 0 = hostCall "jobs" "run" Duration.zero := by
  have run : BrokerRun standardEnv [] World.init := Run.nil
  have run := run.snoc (@Step.registerMethods _ _ 0 "jobs" [openMethod "run"] 4 rfl)
  have run := run.snoc (@Step.registerHandler _ _ 0 _ _ rfl)
  have run := run.snoc (@Step.call _ _ 0 (hostCall "jobs" "run" Duration.zero) rfl rfl)
  have run := run.snoc (@Step.localHit _ _ 0 4 rfl rfl)
  have run := run.snoc (@Step.localAdmit _ _ 0 4 (some [openMethod "run"]) rfl rfl rfl)
  exact ⟨_, run, rfl⟩

theorem local_run_permitted : ∃ methods, ReadLocal standardEnv localActs 4 0 4 methods ∧
    Permits methods "run" CallerCtx.default := by
  obtain ⟨w, run, args⟩ := local_run
  obtain ⟨methods, read, permits⟩ := (gate_enforced run).2.2.1 4 0 4 _ rfl
  rw [args] at permits
  exact ⟨methods, read, permits⟩

end TokimoGate

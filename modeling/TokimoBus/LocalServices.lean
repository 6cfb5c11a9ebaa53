import TokimoBus.Gate
import TokimoBus.SlotLedger

/-!
The handlers of local services and their catalogues. `register_local_service` stores the two in
two tables, the catalogue first, and a call reads the two tables one after the other, the handler
first. Other registrations of the service may come between the inserts of one, and between the
two reads of a call.
-/
namespace TokimoLocal
open TokimoFrame TokimoBroker TokimoSession TokimoCalls TokimoGate TokimoProgress TokimoWire
open LabelledRuns SlotLedger
variable {env : Env} {w w' : World} {a : Act} {acts : List Act} {c : CallId} {h : HandlerId}
  {ms : Option (List MethodDecl)} {n i l m p q : Nat} {service : String}

def methodsTouch : Act → Option (String × Option (List MethodDecl))
  | .registerMethods _ service ms _ => some (service, some ms)
  | _ => none

def handlerTouch : Act → Option (String × Option HandlerId)
  | .registerHandler _ service h => some (service, some h)
  | _ => none

def registeringTouch : Act → Option (Nat × Option (String × HandlerId))
  | .registerMethods n service _ h => some (n, some (service, h))
  | .registerHandler n _ _ => some (n, none)
  | _ => none

theorem methods_ledger :
    Ledger (Step env) (fun w => w.broker.localServiceMethods) methodsTouch :=
  ledger_of fun step => by cases step <;> rfl

theorem handler_ledger : Ledger (Step env) (fun w => w.broker.localServices) handlerTouch :=
  ledger_of fun step => by cases step <;> rfl

theorem registering_ledger : Ledger (Step env) World.registering registeringTouch :=
  ledger_of fun step => by cases step <;> rfl

structure Registration where
  id : Nat
  service : String
  methods : List MethodDecl
  handler : HandlerId

structure Registers (acts : List Act) (r : Registration) (l m : Nat) : Prop where
  first : At acts l (.registerMethods r.id r.service r.methods r.handler)
  second : At acts m (.registerHandler r.id r.service r.handler)
  one : FilledBy registeringTouch acts r.id (r.service, r.handler) m l

/-- Call `c` finds at `p` the handler that `r` stored, and runs it at `q` after a look at a
    catalogue. -/
structure Runs (acts : List Act) (w : World) (c : CallId) (r : Registration) (l m p q : Nat)
    (ms : Option (List MethodDecl)) : Prop where
  registers : Registers acts r l m
  service : (w.call c).service = r.service
  stored : FilledBy handlerTouch acts r.service r.handler p m
  looked : At acts p (.localLookup c (some r.handler))
  order : p < q
  admitted : At acts q (.localAdmit c r.handler ms)

variable {r : Registration}

theorem handler_inserted (stored : FilledBy handlerTouch acts service h i m) :
    m < i ∧ ∃ n, At acts m (.registerHandler n service h) := by
  obtain ⟨order, ⟨b, here, touch⟩, _⟩ := stored
  refine ⟨order, ?_⟩
  cases b with
  | registerHandler n _ _ =>
    cases touch
    exact ⟨n, here⟩
  | _ => cases touch

theorem registration_started (run : BrokerRun env acts w)
    (second : At acts m (.registerHandler n service h)) :
    ∃ l ms, FilledBy registeringTouch acts n (service, h) m l ∧
      At acts l (.registerMethods n service ms h) := by
  obtain ⟨l, filled⟩ := found_from_latest registering_ledger run (k := n) rfl second (by
    intro x y _ step
    cases step with
    | registerHandler ready => exact ready)
  obtain ⟨_, ⟨b, here, touch⟩, _⟩ := id filled
  cases b with
  | registerMethods =>
    cases touch
    exact ⟨l, _, filled, here⟩
  | _ => cases touch

theorem admitted_registered (run : BrokerRun env acts w) (here : At acts q (.localAdmit c h ms)) :
    ∃ r l m p, Runs acts w c r l m p q ms ∧ r.handler = h := by
  obtain ⟨v, v', before, one, _⟩ := run_at run here
  have gated : v.callPhase c = .localGate h := by
    cases one with
    | localAdmit gated => exact gated
  have looked := handler_history before (handler_iff.mpr gated)
  obtain ⟨p, order, looked⟩ := mem_take_index looked
  obtain ⟨x, x', upto, look, rest⟩ := run_at run looked
  obtain ⟨start, found⟩ := localLookup_found look
  have same : w.call c = x.call c :=
    call_fixed ⟨_, upto⟩ (run_cons look rest) (by simp [start])
  have bound := (List.getElem?_eq_some_iff.mp looked).1
  obtain ⟨m, stored⟩ := filled_before handler_ledger rfl upto (Nat.le_of_lt bound) found
  obtain ⟨earlier, n, second⟩ := handler_inserted stored
  obtain ⟨l, methods, started, first⟩ := registration_started run second
  rw [← same] at stored second started first
  exact ⟨⟨n, (w.call c).service, methods, h⟩, l, m, p,
    ⟨⟨first, second, started⟩, rfl, stored, looked, order, here⟩, rfl⟩

/-- A handler is run only for what the catalogue of its own registration permits, and that is the
    catalogue the call has looked at. -/
def OwnCatalogue (acts : List Act) (w : World) : Prop :=
  ∀ c r l m p q ms, Runs acts w c r l m p q ms → ms = some r.methods ∧
    FilledBy methodsTouch acts r.service r.methods q l ∧
    Permits r.methods (w.call c).method (w.call c).caller

/-- No registration of the service stores its catalogue after the one whose handler is run has
    stored its own, and before the call has looked. -/
def Undisturbed (acts : List Act) (w : World) : Prop :=
  ∀ c r l m p q ms, Runs acts w c r l m p q ms → ∀ i n methods h, l < i → i < q →
    ¬ At acts i (.registerMethods n r.service methods h)

theorem methods_touched (touched : Touches methodsTouch service a) :
    ∃ n methods h, a = .registerMethods n service methods h := by
  obtain ⟨x, touch⟩ := touched
  cases a with
  | registerMethods n _ methods h =>
    cases touch
    exact ⟨n, methods, h, rfl⟩
  | _ => cases touch

theorem Runs.before (runs : Runs acts w c r l m p q ms) : l < q := by
  have inserts := runs.registers.one.1
  have stored := runs.stored.1
  have order := runs.order
  omega

theorem undisturbed_consults (runs : Runs acts w c r l m p q ms)
    (alone : ∀ i n methods h, l < i → i < q →
      ¬ At acts i (.registerMethods n r.service methods h)) :
    FilledBy methodsTouch acts r.service r.methods q l := by
  refine ⟨runs.before, ⟨_, runs.registers.first, rfl⟩, ?_⟩
  intro i b after before here touched
  obtain ⟨n, methods, h, rfl⟩ := methods_touched touched
  exact alone i n methods h after before here

theorem consulted_permits (run : BrokerRun env acts w) (runs : Runs acts w c r l m p q ms)
    (consulted : FilledBy methodsTouch acts r.service r.methods q l) :
    ms = some r.methods ∧ Permits r.methods (w.call c).method (w.call c).caller := by
  obtain ⟨v, v', before, one, after⟩ := run_at run runs.admitted
  obtain ⟨x, _, upto, _, holds⟩ := found_of_filled methods_ledger run consulted runs.admitted
  have state := trace_unique before upto
  subst state
  have args : w.call c = v.call c := by
    refine call_fixed ⟨_, before⟩ (run_cons one after) ?_
    cases one with
    | localAdmit gated => simp [gated]
  cases one with
  | localAdmit _ catalogue passed =>
    rw [← args, runs.service] at catalogue
    have same : ms = some r.methods := catalogue.trans holds
    subst same
    refine ⟨rfl, ?_⟩
    rw [args]
    exact localGate_ok_iff.mp passed

/-- In which runs every local handler runs under its own catalogue. -/
theorem own_catalogue_iff (run : BrokerRun env acts w) :
    (∀ c h q ms, At acts q (.localAdmit c h ms) →
      ∃ r l m p, Runs acts w c r l m p q ms ∧ r.handler = h) ∧
    (OwnCatalogue acts w ↔ Undisturbed acts w) := by
  constructor
  · intro c h q ms here
    exact admitted_registered run here
  · constructor
    · intro own c r l m p q ms runs i n methods h after before here
      obtain ⟨_, ⟨_, _, clean⟩, _⟩ := own c r l m p q ms runs
      exact clean i _ after before here ⟨_, rfl⟩
    · intro undisturbed c r l m p q ms runs
      have consulted := undisturbed_consults runs (undisturbed c r l m p q ms runs)
      obtain ⟨same, permits⟩ := consulted_permits run runs consulted
      exact ⟨same, consulted, permits⟩

theorem local_run_own : ∃ w r l m p ms, Runs localActs w 0 r l m p 4 ms ∧ r.handler = 4 ∧
    OwnCatalogue localActs w := by
  obtain ⟨w, run, _⟩ := local_run
  obtain ⟨registered, own⟩ := own_catalogue_iff run
  obtain ⟨r, l, m, p, runs, handler⟩ := registered 0 4 4 _ rfl
  refine ⟨w, r, l, m, p, _, runs, handler, own.mpr ?_⟩
  intro c r l m p q ms runs i n methods h after before here
  cases i with
  | zero => omega
  | succ i =>
    have mem := List.mem_of_getElem? (l := localActs.tail) (i := i) here
    simp [localActs] at mem

def closedMethod (name : String) : MethodDecl := { openMethod name with requiresAuth := true }

/-- The service is registered anew, and a call comes between the two inserts. -/
def renewedActs : List Act :=
  [.registerMethods 0 "jobs" [closedMethod "run"] 4, .registerHandler 0 "jobs" 4,
    .registerMethods 1 "jobs" [openMethod "run"] 5, .call 0 (hostCall "jobs" "run" Duration.zero),
    .localLookup 0 (some 4), .localAdmit 0 4 (some [openMethod "run"])]

theorem renewed_run : ∃ w, BrokerRun standardEnv renewedActs w := by
  have run : BrokerRun standardEnv [] World.init := Run.nil
  have run := run.snoc (@Step.registerMethods _ _ 0 "jobs" [closedMethod "run"] 4 rfl)
  have run := run.snoc (@Step.registerHandler _ _ 0 _ _ rfl)
  have run := run.snoc (@Step.registerMethods _ _ 1 "jobs" [openMethod "run"] 5 rfl)
  have run := run.snoc (@Step.call _ _ 0 (hostCall "jobs" "run" Duration.zero) rfl rfl)
  have run := run.snoc (@Step.localHit _ _ 0 4 rfl rfl)
  have run := run.snoc (@Step.localAdmit _ _ 0 4 (some [openMethod "run"]) rfl rfl rfl)
  exact ⟨_, run⟩

/-- The old handler is run for a caller that its own catalogue does not admit. -/
theorem renewed_unguarded : ¬ ∀ acts w, BrokerRun standardEnv acts w → OwnCatalogue acts w := by
  intro claim
  obtain ⟨w, run⟩ := renewed_run
  obtain ⟨r, l, m, p, runs, handler⟩ := admitted_registered run (h := 4) (q := 5) (c := 0) rfl
  obtain ⟨same, _, _⟩ := claim renewedActs w run 0 r l m p 5 _ runs
  have mem := List.mem_of_getElem? runs.registers.first
  rw [handler, ← Option.some.inj same] at mem
  simp [renewedActs, closedMethod, openMethod] at mem

end TokimoLocal

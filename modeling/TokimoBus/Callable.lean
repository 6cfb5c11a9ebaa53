import TokimoBus.Gate
import TokimoBus.Registrations

/-!
When an acknowledged service can be called. `serve` puts its entry into the registry, writes
HelloAck, and only then puts its handle into the sessions table; a call reads the two tables
in the same order, and gives up when either has nothing for it.
-/
namespace TokimoCallable
open TokimoFrame TokimoOutbound TokimoBroker TokimoSession TokimoCalls TokimoIdentity
open TokimoProgress TokimoTeardown TokimoRegistrations TokimoGate TokimoWire LabelledRuns
open WrappingCounter
variable {env : Env} {w w' : World} {a : Act} {acts rest : List Act} {k : ConnId} {s : Session}
  {c : CallId} {i : Nat}

def serving : Phase → Bool
  | .live _ .attach | .live _ .probe | .live _ .read | .live _ (.fan _ _)
  | .live _ (.deliver _ _ _) => true
  | _ => false

def attaching : Phase → Bool
  | .live _ .attach => true
  | _ => false

/-- Between its HelloAck and its end a session is listed, and attached but for the first step. -/
structure Callable (w : World) (k : ConnId) (s : Session) : Prop where
  session : w.session k = some s
  serves : serving (w.phase k) = true
  listed : w.broker.registry.get s.service = some (s.entry k)
  attached : attaching (w.phase k) = true ∨
    w.broker.sessions (s.service, s.generation) = some ⟨k⟩

theorem moved_serving {f : ConnId → Phase} {j k : ConnId} {p q : Phase} (here : f j = q)
    (same : serving q = true → serving p = true) (now : serving (f k) = true) :
    serving (Function.update f j p k) = true :=
  moved_on (P := fun p => serving p = true) here same now

theorem serving_step (h : Step env w a w') (now : serving (w.phase k) = true)
    (stays : a ≠ .hangup k) : serving (w'.phase k) = true := by
  cases h with
  | @hangup j s here =>
    have ne : k ≠ j := by
      intro eq
      exact stays (by rw [eq])
    change serving (Function.update w.phase j _ k) = true
    rwa [Function.update_of_ne ne]
  | target here =>
    refine moved_serving here ?_ now
    unfold targetStage
    split <;> simp [serving]
  | hello here | accept here | noHello here | consume here | reject here | rejectBroken here
  | clientId here | generate here | publish here | ack here | ackBroken here | rollback here
  | attach here | probe here | fanout here | deliver here | undelivered here | fanned here
  | detach here | check here | forget here | removeIf here | abort here =>
    exact moved_serving here (by simp [serving]) now
  | _ => exact now

theorem attaching_step (h : Step env w a w') (now : attaching (w.phase k) = true) :
    attaching (w'.phase k) = true ∨ a = .attach k := by
  have other : ∀ {j : ConnId} {p q : Phase}, w.phase j = q → attaching q = false →
      attaching (Function.update w.phase j p k) = true := by
    intro j p q here idle
    exact moved_on (P := fun p => attaching p = true) here (by simp [idle]) now
  cases h with
  | @attach j s here =>
    by_cases eq : k = j
    · exact Or.inr (by rw [eq])
    · refine Or.inl ?_
      change attaching (Function.update w.phase j _ k) = true
      rwa [Function.update_of_ne eq]
  | hello here | accept here | noHello here | consume here | reject here | rejectBroken here
  | clientId here | generate here | publish here | ack here | ackBroken here | rollback here
  | probe here | fanout here | target here | deliver here | undelivered here | fanned here
  | hangup here | detach here | check here | forget here | removeIf here | abort here =>
    exact Or.inl (other here rfl)
  | _ => exact Or.inl now

theorem attach_stores (h : Step env w (.attach k) w') (session : w.session k = some s) :
    w'.broker.sessions (s.service, s.generation) = some ⟨k⟩ := by
  cases h with
  | attach here =>
    have same := session_of_phase here
    rw [session] at same
    cases same
    exact Function.update_self _ _ _

theorem key_keeps (run : BrokerRun env acts w) (few : taken generateTakes acts ≤ 2 ^ 64)
    (h : Step env w a w') (session : w.session k = some s) (serves : serving (w.phase k) = true)
    (now : w.broker.sessions (s.service, s.generation) = some ⟨k⟩) :
    w'.broker.sessions (s.service, s.generation) = some ⟨k⟩ := by
  have owner : ∀ {j : ConnId} {s' : Session}, w.session j = some s' →
      (s.service, s.generation) = (s'.service, s'.generation) → k = j := by
    intro j s' there same
    simp only [Prod.mk.injEq] at same
    exact generation_unique run few session there same.2
  cases h with
  | @attach j s' here =>
    by_cases same : (s.service, s.generation) = (s'.service, s'.generation)
    · have eq := owner (session_of_phase here) same
      subst eq
      rw [same]
      exact Function.update_self _ _ _
    · change Function.update w.broker.sessions _ _ _ = _
      rwa [Function.update_of_ne same]
  | @detach j s' here =>
    have other : (s.service, s.generation) ≠ (s'.service, s'.generation) := by
      intro same
      have eq := owner (session_of_phase here) same
      subst eq
      rw [here] at serves
      cases serves
    change Function.update w.broker.sessions _ _ _ = _
    rwa [Function.update_of_ne other]
  | _ => exact now

theorem serving_stays (h : Step env w a w') (serves : serving (w.phase k) = true) :
    withdraws a ≠ some k := by
  intro withdrawn
  cases h with
  | rollback here | removeIf here =>
    simp only [withdraws, Option.some.injEq] at withdrawn
    subst withdrawn
    rw [here] at serves
    cases serves
  | _ => simp [withdraws] at withdrawn

theorem callable_step (run : BrokerRun env acts w) (few : taken generateTakes acts ≤ 2 ^ 64)
    (h : Step env w a w') (now : Callable w k s) (stays : a ≠ .hangup k)
    (alone : ∀ k' e, a = .publish k' e → e.service ≠ s.service) : Callable w' k s := by
  constructor
  · exact session_keeps h now.session
  · exact serving_step h now.serves stays
  · exact entry_keeps run few h now.listed alone (serving_stays h now.serves)
  · rcases now.attached with due | stored
    · rcases attaching_step h due with due | rfl
      · exact Or.inl due
      · exact Or.inr (attach_stores h now.session)
    · exact Or.inr (key_keeps run few h now.session now.serves stored)

theorem callable_run (before : BrokerRun env acts w) (run : Run (Step env) w rest w')
    (few : taken generateTakes (acts ++ rest) ≤ 2 ^ 64) (now : Callable w k s)
    (stays : .hangup k ∉ rest)
    (alone : ∀ k' e, .publish k' e ∈ rest → e.service ≠ s.service) : Callable w' k s := by
  induction run with
  | nil => exact now
  | @snoc rest v v' a part step ih =>
    rw [← List.append_assoc, taken_append] at few
    have short : taken generateTakes (acts ++ rest) ≤ 2 ^ 64 := by omega
    have now := ih short (fun mem => stays (List.mem_append_left _ mem))
      (fun k' e mem => alone k' e (List.mem_append_left _ mem))
    apply callable_step (run_append before part) short step now
    · rintro rfl
      exact stays (by simp)
    · rintro k' e rfl
      exact alone k' e (by simp)

/-- HelloAck of session `k` has been written, and since then `k` has not hung up and no session
    of its service has registered. -/
structure Standing (acts : List Act) (i : Nat) (k : ConnId) (s : Session) : Prop where
  acked : ∃ f, At acts i (.ack k f)
  stays : ∀ j, i < j → ¬ At acts j (.hangup k)
  alone : ∀ j k' e, i < j → At acts j (.publish k' e) → e.service ≠ s.service

/-- The condition under which call `c` finds session `k`: at its HelloAck the session is still
    the one that is registered, and the call does not look for the handle of a session that is
    about to be attached. -/
def Prompt (k : ConnId) (c : CallId) (w : World) : Act → Prop
  | .ack j _ => j = k → ∃ s, w.session k = some s ∧
      w.broker.registry.get s.service = some (s.entry k)
  | .route d _ | .routeNone d => d = c → ∀ e, w.callPhase c = .route e →
      attaching (w.phase e.tx) = false
  | _ => True

/-- No write to the app of session `k` fails while the session serves: the stream takes it, and
    the frame is not too large. -/
def Writes (k : ConnId) (w : World) : Act → Prop
  | .writer j (.rejected _ _) | .writer j (.broke _ _) => j = k → serving (w.phase k) = false
  | _ => True

/-- The broker finds the entry and the handle of session `k` for call `c`, and only the app can
    answer it ServiceNotFound. -/
structure Reaches (acts : List Act) (w : World) (k : ConnId) (s : Session) (c : CallId) :
    Prop where
  listed : .lookupNone c ∉ acts
  admitted : ∀ e, .permit c e ∈ acts → e = s.entry k
  refused : ∀ e err, .refuse c e err ∈ acts → e = s.entry k
  attached : .routeNone c ∉ acts
  routed : ∀ j, .route c j ∈ acts → j = k
  queued : .sendClosed c ∉ acts
  answered : ∀ name, w.callPhase c = .done (.error (.serviceNotFound name)) →
    ∃ resp, .complete c resp ∈ acts ∧ resp.result = .error (.serviceNotFound name)

theorem acked_callable {f : BusFrame} (h : Step env w (.ack k f) w')
    (session : w.session k = some s)
    (listed : w.broker.registry.get s.service = some (s.entry k)) : Callable w' k s := by
  have kept := session_keeps h session
  cases h with
  | ack here =>
    refine ⟨kept, ?_, listed, Or.inl ?_⟩
    · rw [setPhase_here]
      rfl
    · rw [setPhase_here]
      rfl

theorem standing_at (run : Run (Guarded (Step env) (Prompt k c)) World.init acts w)
    (few : taken generateTakes acts ≤ 2 ^ 64) (session : w.session k = some s)
    (standing : Standing acts i k s) {j : Nat} (order : i < j) (here : At acts j a) :
    ∃ v v', BrokerRun env (acts.take j) v ∧ Guarded (Step env) (Prompt k c) v a v' ∧
      Run (Step env) v' (acts.drop (j + 1)) w ∧ Callable v k s := by
  obtain ⟨v, v', upto, one, after⟩ := run_at run here
  obtain ⟨f, acked⟩ := standing.acked
  have short : At (acts.take j) i (.ack k f) := by
    rwa [At, List.getElem?_take_of_lt order]
  obtain ⟨x, y, before, ack, between⟩ := run_at upto short
  rw [List.take_take, Nat.min_eq_left (Nat.le_of_lt order)] at before
  refine ⟨v, v', guarded_run upto, one, guarded_run after, ?_⟩
  obtain ⟨s', owner, listed⟩ := ack.2 rfl
  have first := (guarded_run before).snoc ack.1
  have rest := run_append (guarded_run between) (run_cons one.1 (guarded_run after))
  have later := session_keeps_run ⟨_, first⟩ rest (session_keeps ack.1 owner)
  rw [session] at later
  cases later
  apply callable_run first (guarded_run between) ?_ (acked_callable ack.1 owner listed)
  · intro mem
    obtain ⟨n, later, _, there⟩ := mem_between mem
    exact standing.stays n later there
  · intro k' e mem
    obtain ⟨n, later, _, there⟩ := mem_between mem
    exact standing.alone n k' e later there
  · have parts := parts_at short
    rw [List.take_take, Nat.min_eq_left (Nat.le_of_lt order), ← List.append_assoc] at parts
    have part := @taken_take_le _ generateTakes acts j
    rw [parts]
    omega

def looks : Act → Option CallId
  | .lookupNone c | .permit c _ | .refuse c _ _ | .routeNone c | .route c _ | .sendClosed c =>
    some c
  | _ => none

theorem looks_rank (h : Step env w a w') (own : looks a = some c) :
    4 ≤ (w.callPhase c).rank := by
  cases h with
  | lookupNone here | permit here | refuse here | routeNone here | route here
  | sendClosed here =>
    simp only [looks, Option.some.injEq] at own
    subst own
    simp [here, CallPhase.rank]
  | _ => simp [looks] at own

theorem miss_moves (h : Step env w (.localLookup c none) w') :
    w.callPhase c = .start ∧ w'.callPhase c = .lookup := by
  cases h with
  | localMiss here => exact ⟨here, Function.update_self _ _ _⟩

theorem looks_after_miss (run : BrokerRun env acts w) {m n : Nat}
    (miss : At acts m (.localLookup c none)) (here : At acts n a) (own : looks a = some c) :
    m < n := by
  rcases Nat.lt_trichotomy m n with earlier | same | later
  · exact earlier
  · subst same
    rw [At, here] at miss
    cases miss
    cases own
  · obtain ⟨v, v', _, step, high⟩ := holds_at_later (rank_stable c 4) run here miss later
      (fun v v' _ step => Nat.le_trans (looks_rank step own) (by
        rcases step_call_rank step c with same | up
        · rw [same]
        · exact Nat.le_of_lt up))
    rw [(miss_moves step).1] at high
    simp [CallPhase.rank] at high

def notFound : CallPhase → Option String
  | .done (.error (.serviceNotFound name)) => some name
  | _ => none

theorem gate_never_notFound {e : ServiceEntry} {service method name : String}
    {caller : CallerCtx} : remoteGate e service method caller ≠ .error (.serviceNotFound name) := by
  unfold remoteGate
  split
  · simp
  · split <;> simp

theorem localGate_never_notFound {ms : Option (List MethodDecl)} {service method name : String}
    {caller : CallerCtx} : localGate ms service method caller ≠ .error (.serviceNotFound name) := by
  unfold localGate
  split
  · simp
  · split
    · simp
    · split <;> simp

theorem notFound_eq {p : CallPhase} {name : String} (now : notFound p = some name) :
    p = .done (.error (.serviceNotFound name)) := by
  unfold notFound at now
  split at now
  · cases now
    rfl
  · cases now

theorem step_notFound (h : Step env w a w') {name : String}
    (now : notFound (w'.callPhase c) = some name) :
    notFound (w.callPhase c) = some name ∨ a = .lookupNone c ∨ a = .routeNone c ∨
      a = .sendClosed c ∨ (∃ hd, a = .localReturn c hd (.error (.serviceNotFound name))) ∨
      ∃ resp, a = .complete c resp ∧ resp.result = .error (.serviceNotFound name) := by
  cases h with
  | lookupNone here =>
    rcases moved_to now with old | ⟨rfl, _⟩
    · exact Or.inl old
    · exact Or.inr (Or.inl rfl)
  | routeNone here =>
    rcases moved_to now with old | ⟨rfl, _⟩
    · exact Or.inl old
    · exact Or.inr (Or.inr (Or.inl rfl))
  | sendClosed here =>
    rcases moved_to now with old | ⟨rfl, _⟩
    · exact Or.inl old
    · exact Or.inr (Or.inr (Or.inr (Or.inl rfl)))
  | @localReturn d hd result here =>
    rcases moved_to now with old | ⟨rfl, value⟩
    · exact Or.inl old
    · cases notFound_eq value
      exact Or.inr (Or.inr (Or.inr (Or.inr (Or.inl ⟨hd, rfl⟩))))
  | @complete d k r resp here =>
    rcases moved_to now with old | ⟨rfl, value⟩
    · exact Or.inl old
    · have same := notFound_eq value
      simp only [CallPhase.done.injEq] at same
      exact Or.inr (Or.inr (Or.inr (Or.inr (Or.inr ⟨resp, rfl, same⟩))))
  | refuse here found refused =>
    rcases moved_to now with old | ⟨rfl, value⟩
    · exact Or.inl old
    · cases notFound_eq value
      exact absurd refused gate_never_notFound
  | localRefuse here catalogue refused =>
    rcases moved_to now with old | ⟨rfl, value⟩
    · exact Or.inl old
    · cases notFound_eq value
      exact absurd refused localGate_never_notFound
  | spawn _ here =>
    refine Or.inl (moved_from here ?_ now)
    unfold appCall
    split <;> simp [notFound]
  | probeCheck _ here =>
    refine Or.inl (moved_from here ?_ now)
    split <;> simp [notFound]
  | probe _ here | call here | localHit here | localMiss here | localAdmit here
  | localTimeout here | permit here | route here | number here | register here | send here
  | senderGone here | elapse here | expire here | cancelStart _ here | cancelLocal _ here
  | cancelAwait _ here | answer _ here | answerClosed _ here | probeFail _ here | cache _ here =>
    exact Or.inl (moved_from here (by simp [notFound]) now)
  | _ => exact Or.inl now

theorem missed_never_local (run : BrokerRun env acts w) {m : Nat}
    (miss : At acts m (.localLookup c none)) {hd : HandlerId} {result : Outcome} :
    .localReturn c hd result ∉ acts := by
  intro mem
  obtain ⟨n, here⟩ := List.mem_iff_getElem?.mp mem
  have running : ∀ {v v'}, Step env v (.localReturn c hd result) v' →
      (v.callPhase c).rank = 3 ∧ (v'.callPhase c).rank = 11 := by
    intro v v' step
    cases step with
    | localReturn now => simp [now, World.setCallPhase, CallPhase.rank]
  rcases Nat.lt_trichotomy m n with earlier | same | later
  · obtain ⟨v, v', _, step, high⟩ := holds_at_later (rank_stable c 4) run miss here earlier
      (fun v v' _ step => by simp [(miss_moves step).2, CallPhase.rank])
    have low := (running step).1
    omega
  · subst same
    cases miss.symm.trans here
  · obtain ⟨v, v', _, step, high⟩ := holds_at_later (rank_stable c 11) run here miss later
      (fun v v' _ step => Nat.le_of_eq (running step).2.symm)
    rw [(miss_moves step).1] at high
    simp [CallPhase.rank] at high

theorem looks_callable (run : Run (Guarded (Step env) (Prompt k c)) World.init acts w)
    (few : taken generateTakes acts ≤ 2 ^ 64) (session : w.session k = some s)
    (standing : Standing acts i k s) {m : Nat} (later : i < m)
    (miss : At acts m (.localLookup c none)) (service : (w.call c).service = s.service)
    (mem : a ∈ acts) (own : looks a = some c) : ∃ v v' n, BrokerRun env (acts.take n) v ∧
      Guarded (Step env) (Prompt k c) v a v' ∧ Callable v k s ∧
      (v.call c).service = s.service := by
  obtain ⟨n, here⟩ := List.mem_iff_getElem?.mp mem
  have order := looks_after_miss (guarded_run run) miss here own
  obtain ⟨v, v', before, one, after, callable⟩ :=
    standing_at run few session standing (by omega : i < n) here
  have begun : v.callPhase c ≠ .unused := by
    intro unused
    have high := looks_rank one.1 own
    simp [unused, CallPhase.rank] at high
  have fixed := call_fixed ⟨_, before⟩ (run_cons one.1 after) begun
  rw [fixed] at service
  exact ⟨v, v', n, before, one, callable, service⟩

theorem callable_attached (callable : Callable w k s) (past : attaching (w.phase k) = false) :
    w.broker.sessions (s.service, s.generation) = some ⟨k⟩ := by
  rcases callable.attached with due | stored
  · rw [past] at due
    cases due
  · exact stored

theorem notFound_history (run : BrokerRun env acts w) {name : String}
    (now : w.callPhase c = .done (.error (.serviceNotFound name))) :
    .lookupNone c ∈ acts ∨ .routeNone c ∈ acts ∨ .sendClosed c ∈ acts ∨
      (∃ hd, .localReturn c hd (.error (.serviceNotFound name)) ∈ acts) ∨
      ∃ resp, .complete c resp ∈ acts ∧ resp.result = .error (.serviceNotFound name) := by
  obtain ⟨a, mem, event⟩ := event_of_gained (p := fun w => notFound (w.callPhase c) = some name)
    _ (by simp [World.init, notFound]) (fun v a v' step now => step_notFound step now) run
    (by simp [now, notFound])
  rcases event with rfl | rfl | rfl | ⟨hd, rfl⟩ | ⟨resp, rfl, same⟩
  · exact Or.inl mem
  · exact Or.inr (Or.inl mem)
  · exact Or.inr (Or.inr (Or.inl mem))
  · exact Or.inr (Or.inr (Or.inr (Or.inl ⟨hd, mem⟩)))
  · exact Or.inr (Or.inr (Or.inr (Or.inr ⟨resp, mem, same⟩)))

theorem permits_entry (run : Run (Guarded (Step env) (Prompt k c)) World.init acts w)
    (few : taken generateTakes acts ≤ 2 ^ 64) (session : w.session k = some s)
    (standing : Standing acts i k s) {m : Nat} (later : i < m)
    (miss : At acts m (.localLookup c none)) (service : (w.call c).service = s.service)
    {e : ServiceEntry} (mem : .permit c e ∈ acts) : e = s.entry k := by
  obtain ⟨v, v', n, _, ⟨step, _⟩, callable, named⟩ :=
    looks_callable run few session standing later miss service mem rfl
  have entry := (permit_reads step).1
  rw [named, callable.listed] at entry
  cases entry
  rfl

/-- A call that starts after the HelloAck of a session finds its entry and its handle as long as
    the session stands, if its Invoke does not meet a closed channel. -/
theorem reaches_of_sent (run : Run (Guarded (Step env) (Prompt k c)) World.init acts w)
    (few : taken generateTakes acts ≤ 2 ^ 64) (session : w.session k = some s)
    (standing : Standing acts i k s) {m : Nat} (later : i < m)
    (miss : At acts m (.localLookup c none)) (service : (w.call c).service = s.service)
    (sent : .sendClosed c ∉ acts) : Reaches acts w k s c := by
  have found : ∀ {a : Act}, a ∈ acts → looks a = some c → ∃ v v' n, BrokerRun env (acts.take n) v ∧
      Guarded (Step env) (Prompt k c) v a v' ∧ Callable v k s ∧
      (v.call c).service = s.service :=
    looks_callable run few session standing later miss service
  have listed : .lookupNone c ∉ acts := by
    intro mem
    obtain ⟨v, v', n, _, ⟨step, _⟩, callable, named⟩ := found mem rfl
    cases step with
    | lookupNone here absent =>
      rw [named, callable.listed] at absent
      cases absent
  have admitted : ∀ e, .permit c e ∈ acts → e = s.entry k := fun e mem =>
    permits_entry run few session standing later miss service mem
  have refused : ∀ e err, .refuse c e err ∈ acts → e = s.entry k := by
    intro e err mem
    obtain ⟨v, v', n, _, ⟨step, _⟩, callable, named⟩ := found mem rfl
    cases step with
    | refuse here read refused =>
      rw [named, callable.listed] at read
      cases read
      rfl
  -- the entry that a call holds when it looks for the handle is the one it was admitted with
  have held : ∀ {v n e}, BrokerRun env (acts.take n) v → v.callPhase c = .route e →
      e = s.entry k := by
    intro v n e before here
    have mem := entry_history before (c := c) (e := e) (by rw [here]; rfl)
    exact admitted e (List.mem_of_mem_take mem)
  have attached : .routeNone c ∉ acts := by
    intro mem
    obtain ⟨v, v', n, before, ⟨step, prompt⟩, callable, named⟩ := found mem rfl
    cases step with
    | routeNone here absent =>
      have past := prompt rfl _ here
      cases held before here
      rw [named] at absent
      cases absent.symm.trans (callable_attached callable past)
  have routed : ∀ j, .route c j ∈ acts → j = k := by
    intro j mem
    obtain ⟨v, v', n, before, ⟨step, prompt⟩, callable, named⟩ := found mem rfl
    cases step with
    | route here stored =>
      have past := prompt rfl _ here
      cases held before here
      rw [named] at stored
      cases stored.symm.trans (callable_attached callable past)
      rfl
  refine ⟨listed, admitted, refused, attached, routed, sent, ?_⟩
  intro name now
  rcases notFound_history (guarded_run run) now with none | none | none | ⟨hd, own⟩ | answer
  · exact absurd none listed
  · exact absurd none attached
  · exact absurd none sent
  · exact absurd own (missed_never_local (guarded_run run) miss)
  · exact answer

theorem moved_serves {f : ConnId → Phase} {j : ConnId} {p q : Phase} (here : f j = q)
    (same : serving p = true → serving q = true) (now : serving (Function.update f j p k) = true) :
    serving (f k) = true :=
  moved_back (P := fun p => serving p = true) here same now

theorem serving_back (h : Step env w a w') (now : serving (w'.phase k) = true) :
    serving (w.phase k) = true ∨ ∃ f, a = .ack k f := by
  cases h with
  | ack here =>
    rcases moved_made (P := fun p => serving p = true) And.intro now with old | ⟨rfl, _⟩
    · exact Or.inl old
    · exact Or.inr ⟨_, rfl⟩
  | hello here =>
    refine Or.inl (moved_serves here ?_ now)
    unfold helloPhase
    split <;> simp [serving]
  | consume here | check here =>
    refine Or.inl (moved_serves here ?_ now)
    split <;> simp [serving]
  | target here => exact Or.inl (moved_serves here (fun _ => rfl) now)
  | accept here | noHello here | reject here | rejectBroken here | clientId here | generate here
  | publish here | ackBroken here | rollback here | attach here | probe here | fanout here
  | deliver here | undelivered here | fanned here | hangup here | detach here | forget here
  | removeIf here | abort here =>
    exact Or.inl (moved_serves here (by simp [serving]) now)
  | _ => exact Or.inl now

theorem step_aborted (h : Step env w a w') (now : (w'.out k).aborted = true) :
    (w.out k).aborted = true ∨ a = .abort k := by
  have kept : ∀ {j : ConnId} {o : Outbound}, (o.aborted = true → (w.out j).aborted = true) →
      (Function.update w.out j o k).aborted = true → (w.out k).aborted = true := by
    intro j o same now
    exact moved_back (P := fun o : Outbound => o.aborted = true) rfl same now
  cases h with
  | @abort j s here =>
    rcases moved_made (P := fun o : Outbound => o.aborted = true) And.intro now with old | ⟨rfl, _⟩
    · exact Or.inl old
    · exact Or.inr rfl
  | reject | rejectBroken | ack | ackBroken | rollback | deliver | send | answer | shutdownSend =>
    refine Or.inl (kept ?_ now)
    exact fun asked => asked
  | writer one =>
    refine Or.inl (kept ?_ now)
    intro asked
    cases one <;> exact asked
  | _ => exact Or.inl now

theorem aborted_done (reach : BrokerReachable env w) :
    (w.out k).aborted = true → 15 ≤ (w.phase k).rank := by
  refine reachable_invariant (p := fun w => (w.out k).aborted = true → 15 ≤ (w.phase k).rank)
    (by simp [World.init, Outbound.fresh]) ?_ reach
  intro w a w' _ step known now
  rcases step_aborted step now with old | rfl
  · exact Nat.le_trans (known old) (step_phase step k).1
  · cases step with
    | abort here => simp [setPhase_here, Phase.rank, Stage.rank]

theorem serving_rank (serves : serving (w.phase k) = true) : (w.phase k).rank < 15 := by
  unfold serving at serves
  split at serves <;> simp_all [Phase.rank, Stage.rank]

theorem writes_step (reach : BrokerReachable env w) (h : Step env w a w') (writes : Writes k w a)
    (known : serving (w.phase k) = true → (w.out k).IsOpen)
    (serves : serving (w'.phase k) = true) : (w'.out k).IsOpen := by
  have kept : ∀ {j : ConnId} {o : Outbound}, (k = j → (w.out j).IsOpen → o.IsOpen) →
      (w.out k).IsOpen → (Function.update w.out j o k).IsOpen := by
    intro j o same now
    exact moved_at rfl same now
  rcases serving_back h serves with before | ⟨f, rfl⟩
  · have alive := known before
    cases h with
    | @writer j x o one =>
      refine kept ?_ alive
      rintro rfl _
      cases one with
      | rejected | broke =>
        rw [writes rfl] at before
        cases before
      | cancelledIdle asked | cancelledBusy asked =>
        have late := aborted_done reach asked
        have early := serving_rank before
        omega
      | _ => simp [Outbound.IsOpen]
    | rollback here =>
      refine kept ?_ alive
      rintro rfl _
      rw [here] at before
      cases before
    | ack => exact kept (fun _ _ => by simp [Outbound.IsOpen, Outbound.spawn]) alive
    | reject | rejectBroken | ackBroken | abort | deliver | send | answer | shutdownSend =>
      exact kept (fun _ now => now) alive
    | _ => exact alive
  · cases h with
    | ack here => simp [World.setPhase, World.setOut, Outbound.IsOpen, Outbound.spawn]

/-- While a session serves and no write to its app fails, its channel is open. -/
theorem writes_open (run : Run (Guarded (Step env) (Writes k)) World.init acts w) :
    serving (w.phase k) = true → (w.out k).IsOpen := by
  induction run with
  | nil =>
    intro serves
    cases serves
  | snoc before step ih =>
    intro serves
    exact writes_step ⟨_, guarded_run before⟩ step.1 step.2 ih serves

/-- A call that starts after the HelloAck of a session reaches it as long as the session stands,
    if each step that could come too early or too late is prompt and no write to the app fails. -/
theorem acknowledged_callable (run : Run (Guarded (Step env) (Prompt k c)) World.init acts w)
    (written : Run (Guarded (Step env) (Writes k)) World.init acts w)
    (few : taken generateTakes acts ≤ 2 ^ 64) (session : w.session k = some s)
    (standing : Standing acts i k s) {m : Nat} (later : i < m)
    (miss : At acts m (.localLookup c none)) (service : (w.call c).service = s.service) :
    Reaches acts w k s c := by
  refine reaches_of_sent run few session standing later miss service ?_
  intro mem
  obtain ⟨v, v', n, before, ⟨step, _⟩, callable, named⟩ :=
    looks_callable run few session standing later miss service mem rfl
  have whole := written
  rw [← List.take_append_drop n acts] at whole
  obtain ⟨x, front, _⟩ := run_split whole
  have same := trace_unique before (guarded_run front)
  subst same
  cases step with
  | @sendClosed _ e _ _ here closed =>
    have permitted := entry_history before (c := c) (e := e) (by rw [here]; rfl)
    have own := permits_entry run few session standing later miss service
      (List.mem_of_mem_take permitted)
    subst own
    exact closed (writes_open front callable.serves)

/-- The host calls "video" before it is attached. -/
def earlyActs : List Act :=
  issueActs standardEnv 0 "video" 0 0 ++ ackActs standardEnv 0 videoSession ++
    permitActs 1 playCall videoSession 0 ++ [Act.routeNone 1]

theorem acked_run : BrokerRun standardEnv
    (issueActs standardEnv 0 "video" 0 0 ++ ackActs standardEnv 0 videoSession)
    (World.acked standardEnv (World.issued standardEnv World.init "video" 0) 0
      (videoHello videoToken)) := by
  refine run_append (token_issued standardEnv World.init rfl "video" 0) ?_
  refine acknowledges rfl rfl rfl ?_
  change Fits toVecNamed (.helloAck ⟨1, Duration.fromSecs 15⟩)
  decide +kernel

theorem early_run : ∃ w, BrokerRun standardEnv earlyActs w ∧ w.session 0 = some videoSession ∧
    w.call 1 = playCall := by
  have permitted := run_append acked_run
    (@call_permitted standardEnv _ 0 1 videoSession playCall rfl rfl rfl rfl rfl rfl)
  exact ⟨_, permitted.snoc (Step.routeNone (begin_here _ _ _ _) rfl), rfl, rfl⟩

def AlwaysCallable (env : Env) : Prop :=
  ∀ acts w i k s c m, BrokerRun env acts w → w.session k = some s → Standing acts i k s → i < m →
    At acts m (.localLookup c none) → (w.call c).service = s.service → Reaches acts w k s c

theorem standing_of_rest {f : BusFrame} (acked : At acts i (.ack k f))
    (stays : .hangup k ∉ acts.drop (i + 1))
    (alone : ∀ k' e, .publish k' e ∈ acts.drop (i + 1) → e.service ≠ s.service) :
    Standing acts i k s := by
  refine ⟨⟨f, acked⟩, ?_, ?_⟩
  · intro j later here
    exact stays (index_mem_drop later here)
  · intro j k' e later here
    exact alone k' e (index_mem_drop later here)

theorem acknowledged_not_found : ¬ AlwaysCallable standardEnv := by
  intro claim
  obtain ⟨w, run, session, args⟩ := early_run
  have standing : Standing earlyActs 8 0 videoSession := by
    apply standing_of_rest (f := ackOf standardEnv videoSession) rfl
    · simp [earlyActs, issueActs, ackActs, permitActs]
    · simp [earlyActs, issueActs, ackActs, permitActs]
  have reaches := claim earlyActs w 8 0 videoSession 1 10 run session standing (by omega) rfl
    (by rw [args]; rfl)
  exact reaches.attached (by simp [earlyActs])

def promptActs : List Act :=
  issueActs standardEnv 0 "video" 0 0 ++ ackActs standardEnv 0 videoSession ++
    [Act.attach 0, .probe 0 0] ++ permitActs 1 playCall videoSession 0 ++
      [Act.route 1 0, .number 1 0 1, .register 1 0 1, .send 1 0 (playCall.invoke 1)]

theorem ack_prompt {f : BusFrame} (h : Step env w (.ack k f) w') (session : w'.session k = some s)
    (listed : w'.broker.registry.get s.service = some (s.entry k)) :
    Guarded (Step env) (Prompt k c) w (.ack k f) w' := by
  refine ⟨h, ?_⟩
  intro _
  cases h with
  | @ack _ s' _ here =>
    have same := session_here session
    subst same
    exact ⟨s', session_of_phase here, listed⟩

theorem prompt_run : ∃ w, Run (Guarded (Step standardEnv) (Prompt 0 1)) World.init promptActs w ∧
    w.session 0 = some videoSession ∧ w.call 1 = playCall := by
  have whole : BrokerRun standardEnv
      (promptActs.take 8 ++ [.ack 0 (ackOf standardEnv videoSession)]) _ := acked_run
  obtain ⟨v, front, ack⟩ := run_snoc_inv whole
  have start := (run_guarded (g := Prompt 0 1) front
    (by simp [promptActs, issueActs, ackActs, Prompt])).snoc (ack_prompt ack rfl rfl)
  have after : Run (Step standardEnv) _ [.attach 0, .probe 0 0] videoWorld := attaches rfl
  have permitted := run_append after
    (@call_permitted standardEnv videoWorld 0 1 videoSession playCall rfl rfl rfl rfl rfl rfl)
  have rest := run_guarded (g := Prompt 0 1) permitted (by simp [permitActs, Prompt])
  have run := run_append start rest
  have routed := @Step.route standardEnv (videoWorld.begin 1 playCall
    (.route (videoSession.entry 0))) 1 _ 0 (begin_here _ _ _ _) rfl
  have found : Prompt 0 1 (videoWorld.begin 1 playCall (.route (videoSession.entry 0)))
      (.route 1 0) := by
    rintro _ e here
    cases here
    rfl
  have run := run.snoc ⟨routed, found⟩
  have run := run.snoc ⟨@Step.number standardEnv _ 1 _ 0 rfl, trivial⟩
  have run := run.snoc ⟨@Step.register standardEnv _ 1 _ 0 1 rfl, trivial⟩
  have run := run.snoc ⟨@Step.send standardEnv _ 1 _ 0 1 rfl (by decide), trivial⟩
  exact ⟨_, run, rfl, rfl⟩

theorem prompt_call_reaches : ∃ w, Reaches promptActs w 0 videoSession 1 := by
  obtain ⟨w, run, session, args⟩ := prompt_run
  have standing : Standing promptActs 8 0 videoSession := by
    apply standing_of_rest (f := ackOf standardEnv videoSession) rfl
    · simp [promptActs, issueActs, ackActs, permitActs]
    · simp [promptActs, issueActs, ackActs, permitActs]
  have written := run_guarded (g := Writes 0) (guarded_run run)
    (by simp [promptActs, issueActs, ackActs, permitActs, Writes])
  refine ⟨w, acknowledged_callable run written (by decide) session standing (m := 12) (by omega)
    rfl ?_⟩
  rw [args]
  rfl

end TokimoCallable

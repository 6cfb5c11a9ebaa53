import TokimoBus.ClientFacts

/-!
The past of a client's invokes and tasks. A queued Invoke bears the arguments and the number
of its invoke, a result came with a Response to it, and a reply was returned by the handler
that its task ran for the Invoke it was spawned with.
-/
namespace TokimoClient
open TokimoFrame TokimoOutbound TokimoBroker LabelledRuns WrappingCounter RequestTable
variable {toVecNamed : Encoder} {debug : BusFrame → String} {c c' : Client} {a : ClientAct}
  {acts : List ClientAct} {hello : HelloRequest} {handlers : String → Option HandlerId}
  {i : InvokeId} {t : TaskId} {r : UInt64} {resp : Response} {inv inv' : Invoke} {h : HandlerId}
  {bytes : Bytes} {m n : Nat}

theorem identity_kept (run : ClientRun toVecNamed debug hello handlers acts c) :
    c.hello = hello ∧ c.handlers = handlers := by
  apply run_history (p := fun _ c => c.hello = hello ∧ c.handlers = handlers) ⟨rfl, rfl⟩ ?_ run
  intro as c a c' _ step known
  cases step <;> exact known

theorem greet_hello (run : ClientRun toVecNamed debug hello handlers acts c) {f : BusFrame}
    (mem : .greet f ∈ acts) : f = .hello hello := by
  obtain ⟨n, here⟩ := List.mem_iff_getElem?.mp mem
  obtain ⟨v, _, before, step, _⟩ := run_at run here
  cases step with
  | greet => rw [(identity_kept before).1]

theorem args_keep (step : ClientStep toVecNamed debug c a c') (begun : c.invokePhase i ≠ .unused) :
    c'.args i = c.args i ∧ c'.invokePhase i ≠ .unused := by
  constructor
  · cases step with
    | begin new =>
      apply Function.update_of_ne
      intro same
      rw [same] at begun
      exact begun new
    | _ => rfl
  · intro unused
    rcases step_invoke_rank step i with same | up
    · rw [same] at unused
      exact begun unused
    · rw [unused] at up
      simp [InvokePhase.rank] at up

theorem args_fixed {v : Client} (before : ClientReachable toVecNamed debug hello handlers v)
    (rest : Run (ClientStep toVecNamed debug) v acts c) (begun : v.invokePhase i ≠ .unused) :
    c.args i = v.args i := by
  have kept := stable_run (p := fun u => u.args i = v.args i ∧ u.invokePhase i ≠ .unused)
    (fun u b u' _ step now => by
      have next := args_keep step now.2
      exact ⟨next.1.trans now.1, next.2⟩) before rest ⟨rfl, begun⟩
  exact kept.1

theorem begun_args {x : InvokeArgs} (run : ClientRun toVecNamed debug hello handlers acts c)
    (mem : .begin i x ∈ acts) : c.args i = x := by
  obtain ⟨n, here⟩ := List.mem_iff_getElem?.mp mem
  obtain ⟨v, v', before, step, after⟩ := run_at run here
  have start : v'.args i = x ∧ v'.invokePhase i ≠ .unused := by
    cases step with
    | begin => simp [Client.begin, Client.setInvokePhase]
  rw [args_fixed (reachable_step ⟨_, before⟩ step) after start.2]
  exact start.1

theorem send_rank (step : ClientStep toVecNamed debug c (.send i inv) c') :
    (c.invokePhase i).rank = 3 ∧ (c'.invokePhase i).rank = 4 := by
  cases step with
  | send here => simp [here, Client.setInvokePhase, InvokePhase.rank]

theorem send_once (run : ClientRun toVecNamed debug hello handlers acts c)
    (here : At acts m (.send i inv)) (there : At acts n (.send i inv')) : m = n := by
  apply at_most_once (fun a => ∃ inv, a = .send i inv) (invoke_rank_stable i 4) ?_ ?_ run
    here ⟨inv, rfl⟩ there ⟨inv', rfl⟩
  · intro v a w _ step found spent
    obtain ⟨inv, rfl⟩ := found
    have := (send_rank step).1
    omega
  · intro v a w _ step found
    obtain ⟨inv, rfl⟩ := found
    have := (send_rank step).2
    omega

theorem send_frame (run : ClientRun toVecNamed debug hello handlers acts c)
    (mem : .send i inv ∈ acts) : inv = (c.args i).frame inv.reqId ∧
      Numbered (invokes toVecNamed debug hello handlers) acts i () inv.reqId := by
  obtain ⟨n, here⟩ := List.mem_iff_getElem?.mp mem
  obtain ⟨v, _, before, step, after⟩ := run_at run here
  cases step with
  | @send _ r now alive =>
    constructor
    · rw [args_fixed ⟨_, before⟩ (run_cons (ClientStep.send now alive) after) (by simp [now])]
      rfl
    · obtain ⟨b, earlier, named⟩ := ticket_numbered (invokes toVecNamed debug hello handlers)
        before (c := i) (k := ()) (r := r) (by simp [invokes, now, InvokePhase.ticket])
      exact ⟨b, List.mem_of_mem_take earlier, named⟩

theorem step_awaits (step : ClientStep toVecNamed debug c a c') (now : c'.invokePhase i = .await r) :
    c.invokePhase i = .await r ∨ ∃ inv, a = .send i inv ∧ inv.reqId = r := by
  cases step with
  | @send j r' here alive =>
    rcases moved_or (c := i) (p := .await r') here with same | ⟨rfl, _⟩
    · exact Or.inl (same.symm.trans now)
    · have number : InvokePhase.await r' = .await r := (Function.update_self i _ _).symm.trans now
      simp only [InvokePhase.await.injEq] at number
      exact Or.inr ⟨_, rfl, number⟩
  | begin here | number here | register here | sendClosed here | complete here
  | senderGone here | cancelStart here | cancelAwait here =>
    exact Or.inl (moved_back (P := fun p => p = InvokePhase.await r) here (by simp) now)
  | _ => exact Or.inl now

theorem await_sent (run : ClientRun toVecNamed debug hello handlers acts c)
    (now : c.invokePhase i = .await r) : ∃ inv, .send i inv ∈ acts ∧ inv.reqId = r := by
  obtain ⟨a, mem, inv, rfl, same⟩ := event_of_gained (fun a => ∃ inv, a = .send i inv ∧ inv.reqId = r)
    (p := fun c => c.invokePhase i = .await r) (by simp [Client.new])
    (fun _ _ _ step now => step_awaits step now) run now
  exact ⟨inv, mem, same⟩

theorem complete_answers (run : ClientRun toVecNamed debug hello handlers acts c)
    (mem : .complete i resp ∈ acts) :
    .response resp (some i) ∈ acts ∧ ∃ inv, .send i inv ∈ acts ∧ inv.reqId = resp.reqId := by
  obtain ⟨n, here⟩ := List.mem_iff_getElem?.mp mem
  obtain ⟨l, b, u, _, at_l, woken⟩ :=
    complete_woken (invokes toVecNamed debug hello handlers) run here (c := i) (p := resp) rfl
  obtain rfl := hits_eq woken
  have answered := List.mem_of_getElem? at_l
  refine ⟨answered, ?_⟩
  obtain ⟨v, _, before, step, _⟩ := run_at run here
  cases step with
  | @complete _ r _ waiting value =>
    obtain ⟨inv, earlier, _⟩ := await_sent before waiting
    have sent := List.mem_of_mem_take earlier
    obtain ⟨_, same⟩ := number_once (invokes toVecNamed debug hello handlers) run
      (send_frame run sent).2 (hit_numbered _ run answered woken)
    exact ⟨inv, sent, same⟩

theorem step_done (step : ClientStep toVecNamed debug c a c')
    (now : c'.invokePhase i = .done (.ok bytes)) :
    c.invokePhase i = .done (.ok bytes) ∨ ∃ resp, a = .complete i resp ∧ resp.result = .ok bytes := by
  cases step with
  | @complete j r resp here value =>
    rcases moved_or (c := i) (p := .done resp.result) here with same | ⟨rfl, _⟩
    · exact Or.inl (same.symm.trans now)
    · have same : InvokePhase.done resp.result = .done (.ok bytes) :=
        (Function.update_self i _ _).symm.trans now
      simp only [InvokePhase.done.injEq] at same
      exact Or.inr ⟨resp, rfl, same⟩
  | begin here | number here | register here | send here | sendClosed here
  | senderGone here | cancelStart here | cancelAwait here =>
    exact Or.inl (moved_back (P := fun p => p = InvokePhase.done (.ok bytes)) here (by simp) now)
  | _ => exact Or.inl now

/-- An invoke returns `Ok` only with a Response that says so. -/
theorem ok_completed (run : ClientRun toVecNamed debug hello handlers acts c)
    (now : c.invokePhase i = .done (.ok bytes)) :
    ∃ resp, .complete i resp ∈ acts ∧ resp.result = .ok bytes := by
  obtain ⟨a, mem, resp, rfl, ok⟩ := event_of_gained
    (fun a => ∃ resp, a = .complete i resp ∧ resp.result = .ok bytes)
    (p := fun c => c.invokePhase i = .done (.ok bytes)) (by simp [Client.new])
    (fun _ _ _ step now => step_done step now) run now
  exact ⟨resp, mem, ok⟩

def TaskPhase.rank : TaskPhase → Nat
  | .unused => 0
  | .spawned _ => 1
  | .running _ _ => 2
  | .reply _ _ => 3
  | .finished => 4

structure TaskGains (t : TaskId) (a : ClientAct) (p q : TaskPhase) : Prop where
  rank : p.rank ≤ q.rank
  spawned : ∀ inv, q = .spawned inv → p = .spawned inv ∨ a = .invoke inv t
  running : ∀ inv h, q = .running inv h → p = .running inv h ∨ a = .handle t inv h
  replying : ∀ r bytes, q = .reply r (.ok bytes) → p = .reply r (.ok bytes) ∨
    ∃ inv h, a = .handled t inv h (.ok bytes) ∧ inv.reqId = r

theorem taskGains_refl (p : TaskPhase) : TaskGains t a p p :=
  ⟨Nat.le_refl _, fun _ => Or.inl, fun _ _ => Or.inl, fun _ _ => Or.inl⟩

theorem moved_taskGains {f : TaskId → TaskPhase} {t u : TaskId} {p q : TaskPhase} (here : f u = q)
    (gains : TaskGains u a q p) : TaskGains t a (f t) (Function.update f u p t) := by
  by_cases same : t = u
  · subst same
    rw [Function.update_self, here]
    exact gains
  · rw [Function.update_of_ne same]
    exact taskGains_refl _

theorem step_task (step : ClientStep toVecNamed debug c a c') (t : TaskId) :
    TaskGains t a (c.task t) (c'.task t) := by
  cases step with
  | @handled u inv h result here =>
    apply moved_taskGains here
    constructor
    case replying =>
      intro r bytes same
      cases same
      exact Or.inr ⟨inv, h, rfl, rfl⟩
    all_goals simp [TaskPhase.rank]
  | invoke _ here | handle here | unhandled here | reply here | replyClosed here =>
    apply moved_taskGains here
    constructor <;> simp [TaskPhase.rank]
  | _ => exact taskGains_refl _

theorem task_rank_stable (t : TaskId) (n : Nat) :
    Stable (ClientStep toVecNamed debug) (Client.new hello handlers)
      (fun c => n ≤ (c.task t).rank) := by
  intro c a c' _ step now
  exact Nat.le_trans now (step_task step t).rank

theorem handle_rank (step : ClientStep toVecNamed debug c (.handle t inv h) c') :
    (c.task t).rank = 1 ∧ (c'.task t).rank = 2 := by
  cases step with
  | handle here => simp [here, Client.setTask, TaskPhase.rank]

theorem handle_once {h' : HandlerId} (run : ClientRun toVecNamed debug hello handlers acts c)
    (here : At acts m (.handle t inv h)) (there : At acts n (.handle t inv' h')) : m = n := by
  apply at_most_once (fun a => ∃ inv h, a = .handle t inv h) (task_rank_stable t 2) ?_ ?_ run
    here ⟨inv, h, rfl⟩ there ⟨inv', h', rfl⟩
  · intro v a w _ step found spent
    obtain ⟨inv, h, rfl⟩ := found
    have := (handle_rank step).1
    omega
  · intro v a w _ step found
    obtain ⟨inv, h, rfl⟩ := found
    have := (handle_rank step).2
    omega

theorem handle_invoked (run : ClientRun toVecNamed debug hello handlers acts c)
    (mem : .handle t inv h ∈ acts) : .invoke inv t ∈ acts ∧ handlers inv.method = some h := by
  obtain ⟨n, here⟩ := List.mem_iff_getElem?.mp mem
  obtain ⟨v, _, before, step, _⟩ := run_at run here
  cases step with
  | handle now found =>
    constructor
    · refine List.mem_of_mem_take (label_of_gained (p := fun c => c.task t = .spawned inv)
        (by simp [Client.new]) ?_ before now)
      intro _ _ _ step now
      exact (step_task step t).spawned inv now
    · rw [← (identity_kept before).2]
      exact found

theorem invoked_once (run : ClientRun toVecNamed debug hello handlers acts c)
    (first : .invoke inv t ∈ acts) (second : .invoke inv' t ∈ acts) : inv = inv' := by
  obtain ⟨i, here⟩ := List.mem_iff_getElem?.mp first
  obtain ⟨j, there⟩ := List.mem_iff_getElem?.mp second
  have places := at_most_once (fun a => ∃ inv, a = .invoke inv t) (task_rank_stable t 1) ?_ ?_ run
    here ⟨inv, rfl⟩ there ⟨inv', rfl⟩
  · subst places
    rw [here] at there
    cases there
    rfl
  · intro v a w _ step found spent
    obtain ⟨inv, rfl⟩ := found
    cases step with
    | invoke _ new => simp [new, TaskPhase.rank] at spent
  · intro v a w _ step found
    obtain ⟨inv, rfl⟩ := found
    cases step with
    | invoke => simp [Client.setTask, TaskPhase.rank]

theorem running_handle (run : ClientRun toVecNamed debug hello handlers acts c)
    (now : c.task t = .running inv h) : .handle t inv h ∈ acts :=
  label_of_gained (p := fun c => c.task t = .running inv h) (by simp [Client.new])
    (fun _ _ _ step now => (step_task step t).running inv h now) run now

theorem handled_handle {result : Outcome} (run : ClientRun toVecNamed debug hello handlers acts c)
    (mem : .handled t inv h result ∈ acts) : .handle t inv h ∈ acts := by
  obtain ⟨n, here⟩ := List.mem_iff_getElem?.mp mem
  obtain ⟨v, _, before, step, _⟩ := run_at run here
  cases step with
  | handled now => exact List.mem_of_mem_take (running_handle before now)

theorem reply_handled (run : ClientRun toVecNamed debug hello handlers acts c)
    (mem : .reply t resp ∈ acts) (ok : resp.result = .ok bytes) :
    ∃ inv h, .handled t inv h (.ok bytes) ∈ acts ∧ inv.reqId = resp.reqId := by
  obtain ⟨n, here⟩ := List.mem_iff_getElem?.mp mem
  obtain ⟨v, _, before, step, _⟩ := run_at run here
  cases step with
  | @reply _ r result now alive =>
    simp only at ok
    subst ok
    obtain ⟨a, earlier, inv, h, rfl, same⟩ := event_of_gained
      (fun a => ∃ inv h, a = .handled t inv h (.ok bytes) ∧ inv.reqId = r)
      (p := fun c => c.task t = .reply r (.ok bytes)) (by simp [Client.new])
      (fun _ _ _ step now => (step_task step t).replying r bytes now) before now
    exact ⟨inv, h, List.mem_of_mem_take earlier, same⟩

def TaskPhase.answers : TaskPhase → Option UInt64
  | .spawned inv => some inv.reqId
  | .running inv _ => some inv.reqId
  | .reply r _ => some r
  | _ => none

theorem step_answers (step : ClientStep toVecNamed debug c a c')
    (now : (c'.task t).answers = some r) :
    (c.task t).answers = some r ∨ ∃ inv, a = .invoke inv t ∧ inv.reqId = r := by
  cases step with
  | invoke =>
    rcases moved_to now with old | ⟨rfl, same⟩
    · exact Or.inl old
    · simp only [TaskPhase.answers, Option.some.injEq] at same
      exact Or.inr ⟨_, rfl, same⟩
  | handle here | unhandled here | handled here | reply here | replyClosed here =>
    exact Or.inl (moved_from here (by simp [TaskPhase.answers]) now)
  | _ => exact Or.inl now

theorem reply_invoked (run : ClientRun toVecNamed debug hello handlers acts c)
    (mem : .reply t resp ∈ acts) : ∃ inv, .invoke inv t ∈ acts ∧ inv.reqId = resp.reqId := by
  obtain ⟨n, here⟩ := List.mem_iff_getElem?.mp mem
  obtain ⟨v, _, before, step, _⟩ := run_at run here
  have replying : (v.task t).answers = some resp.reqId := by
    cases step with
    | reply now => rw [now]; rfl
  obtain ⟨b, earlier, inv, rfl, same⟩ := event_of_gained
    (fun a => ∃ inv, a = .invoke inv t ∧ inv.reqId = resp.reqId)
    (p := fun c => (c.task t).answers = some resp.reqId) (by simp [Client.new, TaskPhase.answers])
    (fun _ _ _ step now => step_answers step now) before replying
  exact ⟨inv, List.mem_of_mem_take earlier, same⟩

theorem step_finished (step : ClientStep toVecNamed debug c a c') (now : c'.task t = .finished) :
    c.task t = .finished ∨ (∃ resp, a = .reply t resp) ∨ a = .replyClosed t := by
  have back : ∀ {u : TaskId} {p : TaskPhase} {Q : Prop}, (t = u → p = .finished → Q) →
      Function.update c.task u p t = .finished → c.task t = .finished ∨ Q := by
    intro u p Q made now
    exact moved_made (P := fun p => p = TaskPhase.finished) made now
  cases step with
  | reply =>
    refine back ?_ now
    rintro rfl _
    exact Or.inl ⟨_, rfl⟩
  | replyClosed =>
    refine back ?_ now
    rintro rfl _
    exact Or.inr rfl
  | invoke | handle | unhandled | handled => exact back (by simp) now
  | _ => exact Or.inl now

theorem finished_replied (run : ClientRun toVecNamed debug hello handlers acts c)
    (now : c.task t = .finished) : (∃ resp, .reply t resp ∈ acts) ∨ .replyClosed t ∈ acts := by
  obtain ⟨a, mem, ⟨resp, rfl⟩ | rfl⟩ := event_of_gained
    (fun a => (∃ resp, a = .reply t resp) ∨ a = .replyClosed t)
    (p := fun c => c.task t = .finished) (by simp [Client.new])
    (fun _ _ _ step now => step_finished step now) run now
  · exact Or.inl ⟨resp, mem⟩
  · exact Or.inr mem

theorem sends_invoke (queued : a.sends = some (.invoke inv)) : ∃ i, a = .send i inv := by
  cases a <;> simp [ClientAct.sends] at queued
  exact ⟨_, by rw [queued]⟩

theorem sends_response (queued : a.sends = some (.response resp)) : ∃ t, a = .reply t resp := by
  cases a <;> simp [ClientAct.sends] at queued
  exact ⟨_, by rw [queued]⟩

end TokimoClient

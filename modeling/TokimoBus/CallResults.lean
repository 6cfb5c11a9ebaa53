import Mathlib.Data.List.TakeWhile
import TokimoBus.Admission
import TokimoBus.Gate
import TokimoBus.Confinement

/-!
How a call comes by an `Ok`. It is either what a local handler returned, one that the host
has registered under the name of the service, or the content of a Response to the Invoke
that the call queued; a call goes one of the two ways, and goes it once.
-/
namespace TokimoResults
open TokimoFrame TokimoOutbound TokimoBroker TokimoSession TokimoCalls TokimoIdentity
open TokimoCorrelation TokimoGate TokimoConfinement LabelledRuns WrappingCounter
variable {env : Env} {w w' : World} {a : Act} {acts : List Act} {c : CallId} {k : ConnId}
  {inv inv' : Invoke} {h : HandlerId} {bytes : Bytes} {i j : Nat}

theorem send_rank (step : Step env w (.send c k inv) w') :
    (w.callPhase c).rank = 8 ∧ (w'.callPhase c).rank = 9 := by
  cases step with
  | send here => simp [here, World.setCallPhase, CallPhase.rank]

theorem send_once {k' : ConnId} (run : BrokerRun env acts w)
    (here : acts[i]? = some (.send c k inv)) (there : acts[j]? = some (.send c k' inv')) :
    i = j := by
  apply at_most_once (fun a => ∃ k inv, a = .send c k inv) (rank_stable c 9) ?_ ?_ run
    here ⟨k, inv, rfl⟩ there ⟨k', inv', rfl⟩
  · intro v a w _ step found spent
    obtain ⟨k, inv, rfl⟩ := found
    have := (send_rank step).1
    omega
  · intro v a w _ step found
    obtain ⟨k, inv, rfl⟩ := found
    have := (send_rank step).2
    omega

theorem send_registered (run : BrokerRun env acts w) (mem : Act.send c k inv ∈ acts) :
    ∃ e, Act.publish k e ∈ acts ∧ e.service = (w.call c).service := by
  obtain ⟨i, here⟩ := List.mem_iff_getElem?.mp mem
  obtain ⟨v, _, before, step, after⟩ := run_at run here
  cases step with
  | @send _ e _ r sending alive =>
    have held : entry (v.callPhase c) = some e := by simp [sending, entry]
    obtain ⟨j, _, there⟩ := mem_take_index (entry_history before held)
    obtain ⟨u, _, first, reading, _⟩ := run_at run there
    refine ⟨e, List.mem_of_mem_take (entry_published first (permit_reads reading).1), ?_⟩
    obtain ⟨s, _, same, service⟩ := (named ⟨_, before⟩).admitted c e held
    rw [call_fixed ⟨_, before⟩ (run_cons (Step.send sending alive) after) (by simp [sending]),
      ← service, same]
    rfl

theorem send_args (run : BrokerRun env acts w) (mem : Act.send c k inv ∈ acts) :
    inv = (w.call c).invoke inv.reqId := by
  obtain ⟨i, here⟩ := List.mem_iff_getElem?.mp mem
  obtain ⟨v, _, before, step, after⟩ := run_at run here
  cases step with
  | send sending alive =>
    rw [call_fixed ⟨_, before⟩ (run_cons (Step.send sending alive) after) (by simp [sending])]
    rfl

theorem admit_rank {ms : Option (List MethodDecl)} (step : Step env w (.localAdmit c h ms) w') :
    (w.callPhase c).rank = 2 ∧ w'.callPhase c = .localRun h := by
  cases step with
  | localAdmit here => simp [here, World.setCallPhase, CallPhase.rank]

theorem admit_once {h' : HandlerId} {ms ms' : Option (List MethodDecl)}
    (run : BrokerRun env acts w) (here : acts[i]? = some (.localAdmit c h ms))
    (there : acts[j]? = some (.localAdmit c h' ms')) : i = j := by
  apply at_most_once (fun a => ∃ h ms, a = .localAdmit c h ms) (rank_stable c 3) ?_ ?_ run
    here ⟨h, ms, rfl⟩ there ⟨h', ms', rfl⟩
  · intro v a w _ step found spent
    obtain ⟨h, ms, rfl⟩ := found
    have := (admit_rank step).1
    omega
  · intro v a w _ step found
    obtain ⟨h, ms, rfl⟩ := found
    rw [(admit_rank step).2]
    exact Nat.le_refl _

def Local (c : CallId) (w : World) : Prop :=
  (∃ h, w.callPhase c = .localRun h) ∨ 11 ≤ (w.callPhase c).rank

theorem local_stable (c : CallId) : Stable (Step env) World.init (Local c) := by
  intro w a w' _ step now
  have other : ∀ {d : CallId} {p q : CallPhase}, w.callPhase d = q →
      (11 ≤ q.rank ∨ (∃ h, q = .localRun h) → 11 ≤ p.rank) →
      (∃ h, Function.update w.callPhase d p c = .localRun h) ∨
        11 ≤ (Function.update w.callPhase d p c).rank := by
    intro d p q here finished
    rcases moved_or (c := c) (p := p) here with same | ⟨rfl, was⟩
    · rw [same]
      exact now
    · refine Or.inr ?_
      rw [Function.update_self]
      unfold Local at now
      rw [was] at now
      exact finished now.symm
  cases step with
  | probeCheck _ here =>
    refine other here ?_
    split <;> simp [CallPhase.rank]
  | spawn _ here | probe _ here | call here | localHit here | localMiss here | localAdmit here
  | localRefuse here | localReturn here | localTimeout here | lookupNone here | permit here
  | refuse here | routeNone here | route here | number here | register here | send here
  | sendClosed here | complete here | senderGone here | elapse here | expire here
  | cancelStart _ here | cancelLocal _ here | cancelAwait _ here | answer _ here
  | answerClosed _ here | probeFail _ here | cache _ here =>
    exact other here (by simp [CallPhase.rank])
  | _ => exact now

theorem local_never_sends {ms : Option (List MethodDecl)} (run : BrokerRun env acts w)
    (admitted : Act.localAdmit c h ms ∈ acts) : Act.send c k inv ∉ acts := by
  intro sent
  obtain ⟨i, here⟩ := List.mem_iff_getElem?.mp admitted
  obtain ⟨j, there⟩ := List.mem_iff_getElem?.mp sent
  rcases Nat.lt_trichotomy i j with earlier | same | later
  · obtain ⟨v, _, _, step, now⟩ := holds_at_later (local_stable c) run here there earlier
      (fun v w _ first => Or.inl ⟨h, (admit_rank first).2⟩)
    have sending := (send_rank step).1
    rcases now with ⟨h', running⟩ | finished
    · simp [running, CallPhase.rank] at sending
    · omega
  · subst same
    rw [here] at there
    cases there
  · obtain ⟨v, _, _, step, high⟩ := holds_at_later (rank_stable c 9) run there here later
      (fun v w _ first => Nat.le_of_eq (send_rank first).2.symm)
    have low := (admit_rank step).1
    omega

theorem handler_registered (run : BrokerRun env acts w) {service : String}
    (now : w.broker.localServices service = some h) :
    ∃ n, Act.registerHandler n service h ∈ acts := by
  have gains : ∀ v a w, Step env v a w → w.broker.localServices service = some h →
      v.broker.localServices service = some h ∨ ∃ n, a = .registerHandler n service h := by
    intro v a w step now
    cases step with
    | @registerHandler n s h' ready =>
      rcases moved_to (g := id) now with old | ⟨rfl, same⟩
      · exact Or.inl old
      · simp only [id_eq, Option.some.injEq] at same
        subst same
        exact Or.inr ⟨n, rfl⟩
    | _ => exact Or.inl now
  obtain ⟨a, mem, n, rfl⟩ := event_of_gained (fun a => ∃ n, a = .registerHandler n service h)
    (by simp [World.init, Broker.new]) gains run now
  exact ⟨n, mem⟩

theorem running_admitted (run : BrokerRun env acts w) (now : w.callPhase c = .localRun h) :
    ∃ ms, Act.localAdmit c h ms ∈ acts := by
  obtain ⟨a, mem, ms, rfl⟩ := event_of_gained (fun a => ∃ ms, a = .localAdmit c h ms)
    (p := fun w => w.callPhase c = .localRun h) (by simp [World.init])
    (fun _ _ _ step now => (step_gains step c).running h now) run now
  exact ⟨ms, mem⟩

theorem running_registered (run : BrokerRun env acts w) {ms : Option (List MethodDecl)}
    (mem : Act.localAdmit c h ms ∈ acts) :
    ∃ n, Act.registerHandler n (w.call c).service h ∈ acts := by
  obtain ⟨i, here⟩ := List.mem_iff_getElem?.mp mem
  obtain ⟨v, _, before, step, _⟩ := run_at run here
  have gated : handler (v.callPhase c) = some h := by
    cases step with
    | localAdmit here => rw [here]; rfl
  obtain ⟨j, order, there⟩ := mem_take_index (handler_history before gated)
  obtain ⟨u, _, first, lookup, rest⟩ := run_at run there
  obtain ⟨start, found⟩ := localLookup_found lookup
  obtain ⟨n, registered⟩ := handler_registered first found
  refine ⟨n, List.mem_of_mem_take (i := j) ?_⟩
  rw [call_fixed ⟨_, first⟩ (run_cons lookup rest) (by simp [start])]
  exact registered

/-- What a call returned with `Ok`, a local handler or a Response gave it. -/
theorem result_history (run : BrokerRun env acts w) (now : w.callPhase c = .done (.ok bytes)) :
    (∃ h ms, Act.localAdmit c h ms ∈ acts ∧ Act.localReturn c h (.ok bytes) ∈ acts) ∨
      ∃ resp, Act.complete c resp ∈ acts ∧ resp.result = .ok bytes := by
  have gains : ∀ v a w, Step env v a w → w.callPhase c = .done (.ok bytes) →
      v.callPhase c = .done (.ok bytes) ∨ ((∃ h, a = .localReturn c h (.ok bytes)) ∨
        ∃ resp, a = .complete c resp ∧ resp.result = .ok bytes) := by
    intro v a w step now
    rcases (step_gains step c).result bytes now with old | ⟨h, _, rfl⟩ | found
    · exact Or.inl old
    · exact Or.inr (Or.inl ⟨h, rfl⟩)
    · exact Or.inr (Or.inr found)
  obtain ⟨a, mem, found⟩ := event_of_gained _ (by simp [World.init]) gains run now
  rcases found with ⟨h, rfl⟩ | ⟨resp, rfl, same⟩
  · obtain ⟨i, here⟩ := List.mem_iff_getElem?.mp mem
    obtain ⟨v, _, before, step, _⟩ := run_at run here
    have running : v.callPhase c = .localRun h := by
      cases step with
      | localReturn here => exact here
    obtain ⟨ms, admitted⟩ := running_admitted before running
    exact Or.inl ⟨h, ms, List.mem_of_mem_take admitted, mem⟩
  · exact Or.inr ⟨resp, mem, same⟩

theorem answer_spawned (run : BrokerRun env acts w) {resp : Response}
    (mem : Act.answer c k resp ∈ acts) :
    ∃ inv, Act.spawn k inv c ∈ acts ∧ resp.reqId = inv.reqId := by
  obtain ⟨i, here⟩ := List.mem_iff_getElem?.mp mem
  obtain ⟨v, _, before, step, _⟩ := run_at run here
  cases step with
  | @answer _ _ inv result app now =>
    exact ⟨inv, List.mem_of_mem_take (app_call_spawned before (by simp [now]) app), rfl⟩

theorem answer_result (run : BrokerRun env acts w) {resp : Response}
    (mem : Act.answer c k resp ∈ acts) (ok : resp.result = .ok bytes) :
    (∃ h ms, Act.localAdmit c h ms ∈ acts ∧ Act.localReturn c h (.ok bytes) ∈ acts) ∨
      ∃ resp, Act.complete c resp ∈ acts ∧ resp.result = .ok bytes := by
  obtain ⟨i, here⟩ := List.mem_iff_getElem?.mp mem
  obtain ⟨v, _, before, step, _⟩ := run_at run here
  cases step with
  | answer app now =>
    simp only at ok
    subst ok
    rcases result_history before now with ⟨h, ms, admitted, returned⟩ | ⟨resp, completed, same⟩
    · exact Or.inl ⟨h, ms, List.mem_of_mem_take admitted, List.mem_of_mem_take returned⟩
    · exact Or.inr ⟨resp, List.mem_of_mem_take completed, same⟩

theorem spawned_call (run : BrokerRun env acts w) (mem : Act.spawn k inv c ∈ acts) :
    w.callPhase c ≠ .unused ∧ (w.call c).origin = .app k inv := by
  obtain ⟨i, here⟩ := List.mem_iff_getElem?.mp mem
  obtain ⟨v, u, before, step, after⟩ := run_at run here
  have start : u.callPhase c ≠ .unused ∧ (u.call c).origin = .app k inv := by
    cases step with
    | @spawn _ s =>
      have begun := appCall_rank env.config k s.service inv
      refine ⟨?_, by simp [World.begin, appCall_origin]⟩
      intro unused
      simp only [World.begin, World.setCallPhase, Function.update_self] at unused
      rw [unused] at begun
      simp [CallPhase.rank] at begun
  apply stable_run (p := fun u => u.callPhase c ≠ .unused ∧ (u.call c).origin = .app k inv) ?_
    (reachable_step ⟨_, before⟩ step) after start
  intro u b u' _ step now
  exact ⟨begun_keeps step now.1, by rw [call_keeps step now.1]; exact now.2⟩

theorem spawn_unique {k' : ConnId} (run : BrokerRun env acts w) (first : Act.spawn k inv c ∈ acts)
    (second : Act.spawn k' inv' c ∈ acts) : k = k' ∧ inv = inv' := by
  have one := (spawned_call run first).2
  have two := (spawned_call run second).2
  rw [one] at two
  cases two
  exact ⟨rfl, rfl⟩

theorem step_replied (step : Step env w a w') (now : w'.callPhase c = .answered) :
    w.callPhase c = .answered ∨ (∃ k resp, a = .answer c k resp) ∨ a = .answerClosed c ∨
      probeOf a = some c := by
  have back : ∀ {d : CallId} {p : CallPhase} {Q : Prop}, (c = d → p = .answered → Q) →
      Function.update w.callPhase d p c = .answered → w.callPhase c = .answered ∨ Q := by
    intro d p Q made now
    exact moved_made (P := fun p => p = CallPhase.answered) made now
  cases step with
  | answer =>
    refine back ?_ now
    rintro rfl _
    exact Or.inl ⟨_, _, rfl⟩
  | answerClosed =>
    refine back ?_ now
    rintro rfl _
    exact Or.inr (Or.inl rfl)
  | probeCheck | probeFail | cache =>
    refine back ?_ now
    rintro rfl _
    exact Or.inr (Or.inr rfl)
  | spawn =>
    refine back ?_ now
    unfold appCall
    split <;> simp
  | probe | call | localHit | localMiss | localAdmit | localRefuse | localReturn | localTimeout
  | lookupNone | permit | refuse | routeNone | route | number | register | send | sendClosed
  | complete | senderGone | elapse | expire | cancelStart | cancelLocal | cancelAwait =>
    exact back (by simp) now
  | _ => exact Or.inl now

theorem probeOf_origin (step : Step env w a w') (task : probeOf a = some c) :
    w.callPhase c ≠ .unused ∧ ∃ service generation, (w.call c).origin = .probe service generation := by
  cases step with
  | probeCheck origin here | probeFail origin here | cache origin here =>
    simp only [probeOf, Option.some.injEq] at task
    subst task
    exact ⟨by simp [here], _, _, origin⟩
  | _ => cases task

theorem answered_replied (run : BrokerRun env acts w) (app : (w.call c).origin = .app k inv)
    (now : w.callPhase c = .answered) :
    (∃ resp, .answer c k resp ∈ acts ∧ resp.reqId = inv.reqId) ∨ .answerClosed c ∈ acts := by
  obtain ⟨a, mem, fired⟩ := event_of_gained
    (fun a => (∃ k resp, a = .answer c k resp) ∨ a = .answerClosed c ∨ probeOf a = some c)
    (p := fun w => w.callPhase c = .answered) (by simp [World.init])
    (fun _ _ _ step now => step_replied step now) run now
  rcases fired with ⟨j, resp, rfl⟩ | rfl | task
  · obtain ⟨inv', spawned, same⟩ := answer_spawned run mem
    have origin := (spawned_call run spawned).2
    rw [app] at origin
    cases origin
    exact Or.inl ⟨resp, mem, same⟩
  · exact Or.inr mem
  · obtain ⟨n, here⟩ := List.mem_iff_getElem?.mp mem
    obtain ⟨v, _, before, step, after⟩ := run_at run here
    obtain ⟨begun, service, generation, origin⟩ := probeOf_origin step task
    rw [call_fixed ⟨_, before⟩ (run_cons step after) begun, origin] at app
    cases app

theorem splitOnce_dotted {text : String} (dotted : '.' ∈ text.toList) : splitOnce text ≠ none := by
  intro absent
  unfold splitOnce at absent
  rw [List.span_eq_takeWhile_dropWhile] at absent
  cases rest : text.toList.dropWhile (· ≠ '.') with
  | nil =>
    have plain := List.dropWhile_eq_nil_iff.mp rest _ dotted
    simp at plain
  | cons c cs =>
    rw [rest] at absent
    cases absent

theorem splitOnce_joined {service method : String} (plain : '.' ∉ service.toList) :
    splitOnce (service ++ "." ++ method) = some (service, method) := by
  have before : ∀ a ∈ service.toList, decide (a ≠ '.') = true := by
    intro a mem
    have other : a ≠ '.' := by
      intro same
      exact plain (same ▸ mem)
    exact decide_eq_true other
  have parts : (service ++ "." ++ method).toList.span (· ≠ '.') =
      (service.toList, '.' :: method.toList) := by
    rw [List.span_eq_takeWhile_dropWhile, String.toList_append, String.toList_append,
      List.append_assoc, List.takeWhile_append_of_pos before, List.dropWhile_append_of_pos before]
    simp
  simp only [splitOnce, parts, String.ofList_toList]

end TokimoResults

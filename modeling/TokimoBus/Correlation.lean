import TokimoBus.Identity
import TokimoBus.Progress
import TokimoBus.RequestTable

/-!
Which Response completes which call. A call numbers its Invoke once, from the counter
of the session it was routed to; while that counter has not wrapped, session and number
name the call. The pending table and the reply slots only ever hold calls under their
own number, whatever the peers send and whenever calls time out or sessions end.
-/
namespace TokimoCorrelation
open TokimoFrame TokimoOutbound TokimoBroker TokimoSession TokimoCalls TokimoIdentity
open TokimoProgress LabelledRuns WrappingCounter RequestTable
variable {env : Env} {w w' : World} {a b : Act} {acts : List Act} {c c' : CallId}
  {k k' : ConnId} {r r' : UInt64} {resp resp' : Response}

def numberTakes (k : ConnId) : Act → Option UInt64
  | .number _ j r => if j = k then some r else none
  | _ => none

theorem number_counts (k : ConnId) :
    Counts (Step env) (fun w => w.nextReqId k) (numberTakes k) 0 where
  take := by
    intro w a w' v h takes
    cases h with
    | @number c e j here =>
      by_cases same : j = k
      · subst same
        simp only [numberTakes, ↓reduceIte, Option.some.injEq] at takes
        subst takes
        simp [World.setCallPhase, World.takeReqId]
      · simp [numberTakes, same] at takes
    | _ => simp [numberTakes] at takes
  keep := by
    intro w a w' h takes
    cases h with
    | @number c e j here =>
      by_cases same : j = k
      · subst same
        simp [numberTakes] at takes
      · simp [World.setCallPhase, World.takeReqId, Function.update_of_ne (Ne.symm same)]
    | _ => rfl

def callStage (p : CallPhase) : Nat :=
  if p.rank ≤ 6 then 0 else if p.rank = 7 then 1 else if p.rank ≤ 10 then 2 else 3

theorem callStage_mono {p q : CallPhase} (up : p.rank ≤ q.rank) : callStage p ≤ callStage q := by
  unfold callStage
  split_ifs <;> omega

theorem step_pending (h : Step env w a w') (now : w'.pendingOut k r = some c) :
    w.pendingOut k r = some c ∨ a = .register c k r := by
  have cleared : ∀ {j : ConnId} {q : UInt64},
      (w.setPending j q none).pendingOut k r = some c → w.pendingOut k r = some c := by
    intro j q now
    by_cases same : k = j ∧ r = q
    · obtain ⟨rfl, rfl⟩ := same
      simp [World.setPending] at now
    · by_cases eq : k = j
      · subst eq
        have ne : r ≠ q := fun eq => same ⟨rfl, eq⟩
        simpa [World.setPending, ne] using now
      · simpa [World.setPending, eq] using now
  cases h with
  | @register d e j q here =>
    by_cases eq : k = j
    · subst eq
      by_cases eq : r = q
      · subst eq
        simp only [World.setCallPhase, World.setPending, Function.update_self,
          Option.some.injEq] at now
        subst now
        exact Or.inr rfl
      · exact Or.inl (by simpa [World.setCallPhase, World.setPending, eq] using now)
    · exact Or.inl (by simpa [World.setCallPhase, World.setPending, eq] using now)
  | response here found => exact Or.inl (cleared now)
  | expire here => exact Or.inl (cleared now)
  | _ => exact Or.inl now

theorem step_reply (h : Step env w a w') (now : w'.reply c = some resp) :
    w.reply c = some resp ∨ ∃ k, a = .response k resp (some c) := by
  cases h with
  | @response k s r hit here found =>
    cases hit with
    | none => exact Or.inl now
    | some d =>
      simp only [World.wake] at now
      split at now
      · by_cases eq : c = d
        · subst eq
          simp only [Function.update_self, Option.some.injEq] at now
          subst now
          exact Or.inr ⟨k, rfl⟩
        · rw [Function.update_of_ne eq] at now
          exact Or.inl now
      · exact Or.inl now
  | _ => exact Or.inl now

def numbers : Act → Option (CallId × ConnId × UInt64)
  | .number c k r => some (c, k, r)
  | _ => none

def lists : Act → Option (CallId × ConnId × UInt64)
  | .register c k r => some (c, k, r)
  | _ => none

def hits : Act → Option (ConnId × Response × CallId)
  | .response k resp (some c) => some (k, resp, c)
  | _ => none

def completes : Act → Option (CallId × Response)
  | .complete c resp => some (c, resp)
  | _ => none

theorem numbers_eq (named : numbers a = some (c, k, r)) : a = .number c k r := by
  cases a <;> simp [numbers] at named
  obtain ⟨rfl, rfl, rfl⟩ := named
  rfl

theorem lists_eq (named : lists a = some (c, k, r)) : a = .register c k r := by
  cases a <;> simp [lists] at named
  obtain ⟨rfl, rfl, rfl⟩ := named
  rfl

theorem hits_eq (named : hits a = some (k, resp, c)) : a = .response k resp (some c) := by
  cases a with
  | response j q hit =>
    cases hit with
    | none => simp [hits] at named
    | some d =>
      simp only [hits, Option.some.injEq, Prod.mk.injEq] at named
      obtain ⟨rfl, rfl, rfl⟩ := named
      rfl
  | _ => simp [hits] at named

theorem completes_eq (named : completes a = some (c, resp)) : a = .complete c resp := by
  cases a <;> simp [completes] at named
  obtain ⟨rfl, rfl⟩ := named
  rfl

theorem complete_awaits (h : Step env w (.complete c resp) w') :
    ∃ k r, w.callPhase c = .await k r ∧ w.reply c = some resp ∧ (w'.callPhase c).rank = 11 := by
  cases h with
  | complete here value =>
    exact ⟨_, _, here, value, by simp [World.setCallPhase, CallPhase.rank]⟩

def calls (env : Env) : Table (Step env) World.init ConnId CallId Response where
  counter := fun k w => w.nextReqId k
  slot := World.pendingOut
  ticket := fun w c => ticket (w.callPhase c)
  reply := World.reply
  stage := fun w c => callStage (w.callPhase c)
  tag := Response.reqId
  takes := numberTakes
  numbers := numbers
  lists := lists
  hits := hits
  completes := completes
  counts := number_counts
  takes_numbers := by
    intro a c k r named
    obtain rfl := numbers_eq named
    simp [numberTakes]
  forward := by
    intro w a w' c h
    apply callStage_mono
    rcases step_call_rank h c with same | up
    · rw [same]
    · exact Nat.le_of_lt up
  number := by
    intro w a w' c k r h named
    obtain rfl := numbers_eq named
    cases h with
    | number here => simp [here, World.setCallPhase, callStage, CallPhase.rank]
  ticket_start := fun _ => rfl
  ticket_gain := by
    intro w a w' c k r h held
    refine ((step_gains h c).ticket k r held).imp_right ?_
    rintro rfl
    rfl
  slot_start := fun _ _ => rfl
  slot_gain := by
    intro w a w' c k r h listed
    refine (step_pending h listed).imp_right ?_
    rintro rfl
    rfl
  list := by
    intro w a w' c k r h named
    obtain rfl := lists_eq named
    cases h with
    | register here => simp [here, World.setCallPhase, ticket, callStage, CallPhase.rank]
  hit := by
    intro w a w' k resp c h named
    obtain rfl := hits_eq named
    cases h with
    | response here found =>
      exact ⟨found.symm, by simp [World.wake, World.setPending], rfl⟩
  reply_start := fun _ => rfl
  reply_gain := by
    intro w a w' c resp h now
    refine (step_reply h now).imp_right ?_
    rintro ⟨k, rfl⟩
    exact ⟨k, rfl⟩
  complete := by
    intro w a w' c resp h named
    obtain rfl := completes_eq named
    obtain ⟨k, r, waiting, value, past⟩ := complete_awaits h
    exact ⟨value, by simp [waiting, callStage, CallPhase.rank], by simp [callStage, past]⟩

theorem mem_of_numbered (numbered : Numbered (calls env) acts c k r) :
    Act.number c k r ∈ acts := by
  obtain ⟨a, mem, named⟩ := numbered
  rwa [numbers_eq named] at mem

theorem sent_apart (run : BrokerRun env acts w) (apart : Apart w) {inv : Invoke}
    (mem : Act.send c k inv ∈ acts) : Numbered (calls env) acts c k inv.reqId := by
  obtain ⟨i, here⟩ := List.mem_iff_getElem?.mp mem
  obtain ⟨v, _, before, one, after⟩ := run_at run here
  cases one with
  | @send _ e j r sending alive =>
    have same := routed_apart ⟨_, before⟩ (run_cons (Step.send sending alive) after) apart (c := c)
      (e := e) (k := j) (by simp [sending, routed])
    subst same
    obtain ⟨b, earlier, named⟩ := ticket_numbered (calls env) before (c := c) (k := e.tx) (r := r)
      (by simp [calls, sending, ticket])
    exact ⟨b, List.mem_of_mem_take earlier, named⟩

theorem await_apart (run : BrokerRun env acts w) (apart : Apart w)
    (now : w.callPhase c = .await k r) : ∃ inv, Act.send c k inv ∈ acts ∧ inv.reqId = r := by
  obtain ⟨a, mem, j, inv, rfl, same⟩ := event_of_gained
    (fun a => ∃ j inv, a = Act.send c j inv ∧ inv.reqId = r)
    (p := fun w => w.callPhase c = .await k r) (by simp [World.init])
    (fun v a u step now => ((step_gains step c).sent k r now).imp_right
      fun ⟨e, inv, _, label, eq⟩ => ⟨e.tx, inv, label, eq⟩) run now
  have own := ticket_numbered (calls env) run (c := c) (k := k) (r := r)
    (by simp [calls, now, ticket])
  obtain ⟨rfl, _⟩ := number_once (calls env) run own (sent_apart run apart mem)
  exact ⟨inv, mem, same⟩

theorem sent_numbered (run : BrokerRun env acts w) (few : taken generateTakes acts ≤ 2 ^ 64)
    {inv : Invoke} (mem : Act.send c k inv ∈ acts) :
    Numbered (calls env) acts c k inv.reqId :=
  sent_apart run (few_apart run few) mem

theorem await_sent (run : BrokerRun env acts w) (few : taken generateTakes acts ≤ 2 ^ 64)
    (now : w.callPhase c = .await k r) :
    ∃ inv, Act.send c k inv ∈ acts ∧ inv.reqId = r :=
  await_apart run (few_apart run few) now

theorem sent_session (run : BrokerRun env acts w) {i : Nat} {inv : Invoke}
    (here : acts[i]? = some (.send c k inv)) :
    ∃ s, w.session k = some s ∧ s.service = (w.call c).service := by
  obtain ⟨v, v', before, one, after⟩ := run_at run here
  cases one with
  | @send _ e j r sending alive =>
    have rest := run_cons (Step.send sending alive) after
    obtain ⟨s, session, _, service⟩ :=
      (named ⟨_, before⟩).admitted c e (by simp [sending, entry])
    refine ⟨s, ?_, ?_⟩
    · exact stable_run (p := fun u => u.session e.tx = some s)
        (fun x a y _ step now => session_keeps step now) ⟨_, before⟩ rest session
    · rw [service, call_fixed ⟨_, before⟩ rest (by simp [sending])]

/-- The Response read at position `i` became the result of call `c`. -/
def Completed (acts : List Act) (i : Nat) (c : CallId) : Prop :=
  ∃ k resp, acts[i]? = some (.response k resp (some c)) ∧ Act.complete c resp ∈ acts

theorem response_numbered (run : BrokerRun env acts w)
    (mem : Act.response k resp (some c) ∈ acts) : Numbered (calls env) acts c k resp.reqId :=
  hit_numbered (calls env) run mem rfl

/-- A completed call was completed by a Response that was read on the session its Invoke was
    queued on and bears the Invoke's number. -/
theorem complete_matches (run : BrokerRun env acts w) (few : taken generateTakes acts ≤ 2 ^ 64)
    {i : Nat} (here : acts[i]? = some (.complete c resp)) :
    ∃ j l k inv, j < i ∧ l < i ∧ acts[j]? = some (.send c k inv) ∧
      acts[l]? = some (.response k resp (some c)) ∧ resp.reqId = inv.reqId := by
  obtain ⟨l, b, k', second, at_l, woken⟩ := complete_woken (calls env) run here rfl
  obtain rfl := hits_eq woken
  obtain ⟨v, _, before, one, _⟩ := run_at run here
  obtain ⟨k, r, waiting, value, _⟩ := complete_awaits one
  have short : taken generateTakes (acts.take i) ≤ 2 ^ 64 :=
    Nat.le_trans (taken_take_le acts i) few
  obtain ⟨inv, sent, rfl⟩ := await_sent before short waiting
  obtain ⟨rfl, same⟩ := number_once (calls env) run
    (sent_numbered run few (List.mem_of_mem_take sent))
    (response_numbered run (List.mem_of_getElem? at_l))
  obtain ⟨j, first, at_j⟩ := mem_take_index sent
  exact ⟨j, l, k, inv, first, second, at_j, at_l, same.symm⟩

theorem elapse_awaits (h : Step env w (.elapse c) w') :
    (w.callPhase c).rank = 9 ∧ (w'.callPhase c).rank = 10 := by
  cases h with
  | elapse here => simp [here, World.setCallPhase, CallPhase.rank]

theorem elapsed_never_completes (run : BrokerRun env acts w) (timed : Act.elapse c ∈ acts) :
    Act.complete c resp ∉ acts := by
  intro completed
  obtain ⟨i, here⟩ := List.mem_iff_getElem?.mp timed
  obtain ⟨j, there⟩ := List.mem_iff_getElem?.mp completed
  rcases Nat.lt_trichotomy i j with earlier | same | later
  · obtain ⟨v, _, _, one, high⟩ := holds_at_later (rank_stable c 10) run here there earlier
      (fun v w _ first => Nat.le_of_eq (elapse_awaits first).2.symm)
    obtain ⟨k, r, waiting, _⟩ := complete_awaits one
    simp [waiting, CallPhase.rank] at high
  · subst same
    rw [here] at there
    cases there
  · obtain ⟨v, _, _, one, high⟩ := holds_at_later (rank_stable c 11) run there here later
      (fun v w _ first => by
        obtain ⟨_, _, _, _, past⟩ := complete_awaits first
        exact Nat.le_of_eq past.symm)
    have := (elapse_awaits one).1
    omega

/-- Calls are completed by their own Responses only. -/
theorem rpc_correlated (run : BrokerRun env acts w)
    (fewSessions : taken generateTakes acts < 2 ^ 64)
    (fewCalls : ∀ k, taken (numberTakes k) acts < 2 ^ 64) :
    (∀ i c resp, At acts i (.complete c resp) → ∃ j l k s inv, j < i ∧ l < i ∧
      At acts j (.send c k inv) ∧ At acts l (.response k resp (some c)) ∧
      resp.reqId = inv.reqId ∧ w.session k = some s ∧ s.service = (w.call c).service ∧
      ∀ k' s', w.session k' = some s' → s'.generation = s.generation → k' = k) ∧
    (∀ i j c, Completed acts i c → Completed acts j c → i = j) ∧
    (∀ i c c', Completed acts i c → Completed acts i c' → c = c') ∧
    (∀ i j c c' k inv resp hit, At acts i (.elapse c) → i < j →
      At acts j (.response k resp hit) → .send c k inv ∈ acts → inv.reqId = resp.reqId →
      ¬ Completed acts j c') ∧
    ∀ j c k k' inv resp hit, At acts j (.response k' resp hit) → .send c k inv ∈ acts →
      k' ≠ k → ¬ Completed acts j c := by
  refine ⟨?_, ?_, ?_, ?_, ?_⟩
  · intro i c resp here
    obtain ⟨j, l, k, inv, first, second, sent, answered, same⟩ :=
      complete_matches run (Nat.le_of_lt fewSessions) here
    obtain ⟨s, session, service⟩ := sent_session run sent
    exact ⟨j, l, k, s, inv, first, second, sent, answered, same, session, service,
      fun k' s' session' gen => generation_unique run (Nat.le_of_lt fewSessions) session' session gen⟩
  · rintro i j c ⟨k, resp, here, _⟩ ⟨k', resp', there, _⟩
    exact hit_once (calls env) run here rfl there rfl
  · rintro i c c' ⟨k, resp, here, _⟩ ⟨k', resp', there, _⟩
    rw [here] at there
    cases there
    rfl
  · rintro i j c c' k inv resp hit timed _ here sent same ⟨k', resp', there, completed⟩
    rw [here] at there
    cases there
    have own := sent_numbered run (Nat.le_of_lt fewSessions) sent
    rw [same] at own
    have answered := response_numbered run (List.mem_of_getElem? here)
    have equal := number_unique (calls env) run (Nat.le_of_lt (fewCalls k)) own answered
    subst equal
    exact elapsed_never_completes run (List.mem_of_getElem? timed) completed
  · rintro j c k k' inv resp hit here sent ne ⟨k'', resp', there, _⟩
    rw [here] at there
    cases there
    have own := sent_numbered run (Nat.le_of_lt fewSessions) sent
    exact ne (number_once (calls env) run (response_numbered run (List.mem_of_getElem? here)) own).1

theorem play_run_correlated : ∃ j l k inv, j < 19 ∧ l < 19 ∧ At playActs j (.send 1 k inv) ∧
    At playActs l (.response k ⟨1, .ok []⟩ (some 1)) ∧ 1 = inv.reqId := by
  obtain ⟨w, run⟩ := play_run
  obtain ⟨j, l, k, s, inv, first, second, sent, answered, same, _⟩ :=
    (rpc_correlated run (by decide) (fun k => by
      have few : taken (numberTakes k) playActs ≤ playActs.length := List.countP_le_length
      exact Nat.lt_of_le_of_lt few (by decide))).1 19 1 ⟨1, .ok []⟩ rfl
  exact ⟨j, l, k, inv, first, second, sent, answered, same⟩

end TokimoCorrelation

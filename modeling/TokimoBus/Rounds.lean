import TokimoBus.Identity
import TokimoBus.Progress
import TokimoBus.Pipes

/-!
The fan-out of one Publish frame. A session reads its Publish frames one at a time, and for each
it looks up every service it has collected, once, and sends to the session it finds there.
-/
namespace TokimoRounds
open TokimoFrame TokimoOutbound TokimoBroker TokimoSession TokimoIdentity TokimoProgress
open LabelledRuns Pipes
variable {env : Env} {w w' : World} {a : Act} {acts : List Act} {k j : ConnId} {s : Session}
  {ev : Event} {left : List String} {dest : Option ConnId} {l : Nat}

def fanning : Phase → Option (Session × Event × List String × Option ConnId)
  | .live s (.fan ev rest) => some (s, ev, rest, none)
  | .live s (.deliver ev j rest) => some (s, ev, rest, some j)
  | _ => none

def spreads : Act → Option ConnId
  | .fanout k _ _ | .target k _ _ | .deliver k _ _ | .undelivered k _ => some k
  | _ => none

/-- What a step of its own does to a session that distributes an event. -/
inductive FanStep (k : ConnId) (p : Phase) (s : Session) :
    Act → Event → List String → Option ConnId → Prop where
  | begins {ev : Event} {targets : List String} (once : targets.Nodup) :
      FanStep k p s (.fanout k ev targets) { ev with fromService := some s.service } targets none
  | looks {ev : Event} {svc : String} {rest : List String} {found : Option ServiceEntry}
      (before : fanning p = some (s, ev, svc :: rest, none)) :
      FanStep k p s (.target k svc found) ev rest (found.map ServiceEntry.tx)
  | sends {ev : Event} {rest : List String} {j : ConnId}
      (before : fanning p = some (s, ev, rest, some j)) :
      FanStep k p s (.deliver k j ev) ev rest none
  | fails {ev : Event} {rest : List String} {j : ConnId}
      (before : fanning p = some (s, ev, rest, some j)) :
      FanStep k p s (.undelivered k j) ev rest none

theorem step_fan (h : Step env w a w') {s : Session} {ev : Event} {left : List String}
    {dest : Option ConnId} (now : fanning (w'.phase k) = some (s, ev, left, dest)) :
    (fanning (w.phase k) = some (s, ev, left, dest) ∧ spreads a ≠ some k) ∨
      FanStep k (w.phase k) s a ev left dest := by
  have other : ∀ {j : ConnId} {p q : Phase}, w.phase j = q → fanning p = none →
      fanning (Function.update w.phase j p k) = some (s, ev, left, dest) →
      fanning (w.phase k) = some (s, ev, left, dest) := by
    intro j p q here idle now
    exact moved_from here (by simp [idle]) now
  have elsewhere : ∀ {j : ConnId} {p : Phase}, k ≠ j →
      fanning (Function.update w.phase j p k) = some (s, ev, left, dest) →
      fanning (w.phase k) = some (s, ev, left, dest) ∧ some j ≠ some k := by
    intro j p ne now
    rw [Function.update_of_ne ne] at now
    exact ⟨now, fun same => ne (Option.some.inj same).symm⟩
  cases h with
  | @fanout j _ _ _ here once =>
    by_cases eq : k = j
    · subst eq
      rw [setPhase_here] at now
      cases now
      exact Or.inr (.begins once)
    · exact Or.inl (elsewhere eq now)
  | @target j _ _ _ _ found here =>
    by_cases eq : k = j
    · subst eq
      rw [setPhase_here] at now
      rw [here]
      cases found <;> cases now <;> exact Or.inr (.looks rfl)
    · exact Or.inl (elsewhere eq now)
  | @deliver j _ _ _ _ here =>
    by_cases eq : k = j
    · subst eq
      rw [setPhase_here] at now
      rw [here]
      cases now
      exact Or.inr (.sends rfl)
    · exact Or.inl (elsewhere eq now)
  | @undelivered j _ _ _ _ here =>
    by_cases eq : k = j
    · subst eq
      rw [setPhase_here] at now
      rw [here]
      cases now
      exact Or.inr (.fails rfl)
    · exact Or.inl (elsewhere eq now)
  | hello here =>
    refine Or.inl ⟨other here ?_ now, by simp [spreads]⟩
    unfold helloPhase
    split <;> rfl
  | consume here =>
    refine Or.inl ⟨other here ?_ now, by simp [spreads]⟩
    split <;> rfl
  | check here =>
    refine Or.inl ⟨other here ?_ now, by simp [spreads]⟩
    split <;> rfl
  | accept here | noHello here | reject here | rejectBroken here | clientId here
  | generate here | publish here | ack here | ackBroken here | rollback here | attach here
  | probe here | fanned here | hangup here | detach here | forget here | removeIf here
  | abort here =>
    exact Or.inl ⟨other here rfl now, by simp [spreads]⟩
  | _ => exact Or.inl ⟨now, by simp [spreads]⟩

theorem at_append {i : Nat} {b : Act} (here : At acts i b) (rest : List Act) :
    At (acts ++ rest) i b := by
  have inside := (List.getElem?_eq_some_iff.mp here).1
  unfold At at here ⊢
  rwa [List.getElem?_append_left inside]

theorem deliver_fanning (h : Step env w (.deliver k j ev) w') : ∃ s left,
    fanning (w.phase k) = some (s, ev, left, some j) := by
  cases h with
  | @deliver _ _ s _ rest here => exact ⟨s, rest, by rw [here]; rfl⟩

def publishes (k : ConnId) : Act → Option Event
  | .fanout k' ev _ => if k' = k then some ev else none
  | _ => none

def looks (k : ConnId) : Act → Option String
  | .target k' svc _ => if k' = k then some svc else none
  | _ => none

def finds (k : ConnId) : Act → Option (String × ServiceEntry)
  | .target k' svc (some e) => if k' = k then some (svc, e) else none
  | _ => none

def tries (k : ConnId) : Act → Option ConnId
  | .deliver k' j _ | .undelivered k' j => if k' = k then some j else none
  | _ => none

theorem quiet (other : spreads a ≠ some k) : publishes k a = none ∧ looks k a = none ∧
    finds k a = none ∧ tries k a = none := by
  cases a with
  | fanout k' | target k' svc found | deliver k' | undelivered k' =>
    have ne : k' ≠ k := fun same => other (by rw [← same]; rfl)
    simp only [publishes, looks, finds, tries, if_neg ne, true_and]
    try cases found <;> simp [ne]
  | _ => exact ⟨rfl, rfl, rfl, rfl⟩

/-- What session `k` has done since its last Publish frame, at `l`: the services it has looked
    up and those that are left make up what it collected there, and it has sent to each session
    it found but the last. -/
structure Round (acts : List Act) (k : ConnId) (s : Session) (ev : Event) (left : List String)
    (dest : Option ConnId) (l : Nat) (ev₀ : Event) (targets : List String) : Prop where
  here : At acts l (.fanout k ev₀ targets)
  stamp : ev = { ev₀ with fromService := some s.service }
  once : targets.Nodup
  looked : (acts.drop (l + 1)).filterMap (looks k) ++ left = targets
  latest : (acts.drop (l + 1)).filterMap (publishes k) = []
  sent : ((acts.drop (l + 1)).filterMap (finds k)).map (fun f => f.2.tx) =
    (acts.drop (l + 1)).filterMap (tries k) ++ dest.toList

theorem drop_snoc (inside : l < acts.length) :
    (acts ++ [a]).drop (l + 1) = acts.drop (l + 1) ++ [a] :=
  List.drop_append_of_le_length inside

theorem round_quiet {ev₀ : Event} {targets : List String}
    (round : Round acts k s ev left dest l ev₀ targets) (other : spreads a ≠ some k) :
    Round (acts ++ [a]) k s ev left dest l ev₀ targets := by
  have inside := (List.getElem?_eq_some_iff.mp round.here).1
  obtain ⟨silent, nothing, nobody, unsent⟩ := quiet other
  constructor
  · exact at_append round.here _
  · exact round.stamp
  · exact round.once
  · rw [drop_snoc inside, filterMap_snoc, nothing, Option.toList_none, List.append_nil]
    exact round.looked
  · rw [drop_snoc inside, filterMap_snoc, silent, Option.toList_none, List.append_nil]
    exact round.latest
  · rw [drop_snoc inside, filterMap_snoc, filterMap_snoc, nobody, unsent, Option.toList_none,
      Option.toList_none, List.append_nil, List.append_nil]
    exact round.sent

theorem round_begins {ev₀ : Event} {targets : List String} (once : targets.Nodup) :
    Round (acts ++ [.fanout k ev₀ targets]) k s { ev₀ with fromService := some s.service } targets
      none acts.length ev₀ targets := by
  have rest : (acts ++ [Act.fanout k ev₀ targets]).drop (acts.length + 1) = [] := by simp
  constructor
  · simp [At]
  · rfl
  · exact once
  all_goals simp

theorem round_looks {ev₀ : Event} {targets : List String} {svc : String}
    {found : Option ServiceEntry} (round : Round acts k s ev (svc :: left) none l ev₀ targets) :
    Round (acts ++ [.target k svc found]) k s ev left (found.map ServiceEntry.tx) l ev₀
      targets := by
  have inside := (List.getElem?_eq_some_iff.mp round.here).1
  constructor
  · exact at_append round.here _
  · exact round.stamp
  · exact round.once
  · rw [drop_snoc inside, filterMap_snoc, List.append_assoc]
    simpa [looks] using round.looked
  · rw [drop_snoc inside, filterMap_snoc]
    simpa [publishes] using round.latest
  · rw [drop_snoc inside, filterMap_snoc, filterMap_snoc, List.map_append, round.sent]
    cases found <;> simp [finds, tries]

theorem round_sends {ev₀ : Event} {targets : List String}
    (round : Round acts k s ev left (some j) l ev₀ targets) (silent : publishes k a = none)
    (nothing : looks k a = none) (nobody : finds k a = none) (sent : tries k a = some j) :
    Round (acts ++ [a]) k s ev left none l ev₀ targets := by
  have inside := (List.getElem?_eq_some_iff.mp round.here).1
  constructor
  · exact at_append round.here _
  · exact round.stamp
  · exact round.once
  · rw [drop_snoc inside, filterMap_snoc, nothing, Option.toList_none, List.append_nil]
    exact round.looked
  · rw [drop_snoc inside, filterMap_snoc, silent, Option.toList_none, List.append_nil]
    exact round.latest
  · rw [drop_snoc inside, filterMap_snoc, filterMap_snoc, nobody, sent]
    simpa using round.sent

/-- A session that distributes an event does so for the last Publish frame it has read. -/
theorem round (run : BrokerRun env acts w) (now : fanning (w.phase k) = some (s, ev, left, dest)) :
    ∃ l ev₀ targets, Round acts k s ev left dest l ev₀ targets := by
  induction run generalizing ev left dest with
  | nil => cases now
  | @snoc acts w w' a before step ih =>
    rcases step_fan step now with ⟨old, other⟩ | own
    · obtain ⟨l, ev₀, targets, round⟩ := ih old
      exact ⟨l, ev₀, targets, round_quiet round other⟩
    · cases own with
      | @begins ev₀ _ once => exact ⟨acts.length, ev₀, left, round_begins once⟩
      | looks old =>
        obtain ⟨l, ev₀, targets, round⟩ := ih old
        exact ⟨l, ev₀, targets, round_looks round⟩
      | sends old | fails old =>
        obtain ⟨l, ev₀, targets, round⟩ := ih old
        exact ⟨l, ev₀, targets, round_sends round rfl rfl rfl (by simp [tries])⟩

theorem looks_of_finds {svc : String} {e : ServiceEntry} (found : finds k a = some (svc, e)) :
    looks k a = some svc ∧ a = .target k svc (some e) := by
  cases a with
  | target k' svc' entry =>
    cases entry with
    | none => cases found
    | some e' =>
      by_cases eq : k' = k
      · subst eq
        simp only [finds, ↓reduceIte, Option.some.injEq, Prod.mk.injEq] at found
        obtain ⟨rfl, rfl⟩ := found
        exact ⟨if_pos rfl, rfl⟩
      · simp [finds, eq] at found
  | _ => cases found

/-- The last Publish frame of session `k` before position `i` is at `l`. -/
def Since (acts : List Act) (k : ConnId) (l i : Nat) (ev : Event) (targets : List String) : Prop :=
  At acts l (.fanout k ev targets) ∧ l < i ∧ ∀ a ∈ (acts.take i).drop (l + 1), publishes k a = none

theorem since_append {i : Nat} {targets : List String} (inside : i ≤ acts.length) :
    Since (acts ++ [a]) k l i ev targets ↔ Since acts k l i ev targets := by
  unfold Since
  rw [List.take_append_of_le_length inside]
  constructor
  · rintro ⟨here, before, rest⟩
    rw [At, List.getElem?_append_left (by omega)] at here
    exact ⟨here, before, rest⟩
  · rintro ⟨here, before, rest⟩
    exact ⟨at_append here _, before, rest⟩

theorem round_since {ev₀ : Event} {targets : List String}
    (round : Round acts k s ev left dest l ev₀ targets) :
    Since acts k l acts.length ev₀ targets := by
  refine ⟨round.here, (List.getElem?_eq_some_iff.mp round.here).1, ?_⟩
  rw [List.take_length]
  exact List.filterMap_eq_nil_iff.mp round.latest

theorem since_unique {l' i : Nat} {ev' : Event} {targets targets' : List String}
    (first : Since acts k l i ev targets) (second : Since acts k l' i ev' targets') : l = l' := by
  have ordered : ∀ {m n : Nat} {ev ev' : Event} {ts ts' : List String}, Since acts k m i ev ts →
      Since acts k n i ev' ts' → ¬ m < n := by
    intro m n ev ev' ts ts' first second order
    have inside : n < i := second.2.1
    have there : (acts.take i)[n]? = some (.fanout k ev' ts') := by
      rw [List.getElem?_take_of_lt inside]
      exact second.1
    have none := first.2.2 _ (index_mem_drop order there)
    simp [publishes] at none
  have left := ordered first second
  have right := ordered second first
  omega

theorem since_take {i : Nat} {targets : List String} :
    Since (acts.take i) k l i ev targets ↔ Since acts k l i ev targets := by
  unfold Since
  rw [List.take_take, Nat.min_self]
  constructor
  · rintro ⟨here, rest⟩
    exact ⟨(take_index here).2, rest⟩
  · rintro ⟨here, before, rest⟩
    refine ⟨?_, before, rest⟩
    rwa [At, List.getElem?_take_of_lt before]

theorem length_take_at {i : Nat} (here : At acts i a) : (acts.take i).length = i := by
  have inside := (List.getElem?_eq_some_iff.mp here).1
  rw [List.length_take, Nat.min_eq_left (Nat.le_of_lt inside)]

theorem round_at {i : Nat} {targets : List String} {v : World} {ev₀ : Event}
    (before : BrokerRun env (acts.take i) v) (here : At acts i a)
    (now : fanning (v.phase k) = some (s, ev, left, dest)) (since : Since acts k l i ev₀ targets) :
    Round (acts.take i) k s ev left dest l ev₀ targets := by
  obtain ⟨l', ev₁, targets', last⟩ := round before now
  have started := round_since last
  rw [length_take_at here] at started
  obtain rfl := since_unique since (since_take.mp started)
  cases since.1.symm.trans (since_take.mp started).1
  exact last

theorem looks_collected {ev₀ : Event} {targets : List String} {h : Nat} {svc : String}
    {found : Option ServiceEntry} (round : Round acts k s ev left dest l ev₀ targets)
    (later : l < h) (here : At acts h (.target k svc found)) : svc ∈ targets := by
  rw [← round.looked]
  apply List.mem_append_left
  exact List.mem_filterMap.mpr ⟨_, index_mem_drop later here, by simp [looks]⟩

theorem state_at (run : BrokerRun env acts w) {i : Nat} (here : At acts i a) :
    ∃ v v', BrokerRun env (acts.take i) v ∧ Step env v a v' ∧ Run (Step env) v (acts.drop i) w := by
  obtain ⟨v, v', before, one, after⟩ := run_at run here
  obtain ⟨inside, value⟩ := List.getElem?_eq_some_iff.mp here
  have rest := run_cons one after
  rw [← value, ← List.drop_eq_getElem_cons inside] at rest
  exact ⟨v, v', before, one, rest⟩

theorem target_found {svc : String} {e : ServiceEntry} {w' : World}
    (h : Step env w (.target k svc (some e)) w') : w.broker.registry.get svc = some e := by
  cases h with
  | target _ looked => exact looked.symm

theorem fanning_session (now : fanning (w.phase k) = some (s, ev, left, dest)) :
    w.session k = some s := by
  unfold World.session
  generalize w.phase k = p at now
  cases p with
  | live s' stage => cases stage <;> cases now <;> rfl
  | _ => cases now

/-- A session that is about to send to another has found it in its last step of the fan-out. -/
theorem latest_lookup (run : BrokerRun env acts w)
    (now : fanning (w.phase k) = some (s, ev, left, some j)) : ∃ h svc e,
      At acts h (.target k svc (some e)) ∧ e.tx = j ∧ ∀ b ∈ acts.drop (h + 1), spreads b ≠ some k := by
  induction run generalizing ev left with
  | nil => cases now
  | @snoc acts w w' a before step ih =>
    rcases step_fan step now with ⟨old, other⟩ | own
    · obtain ⟨h, svc, e, here, owner, rest⟩ := ih old
      refine ⟨h, svc, e, at_append here _, owner, fun b mem => ?_⟩
      rw [drop_snoc (List.getElem?_eq_some_iff.mp here).1] at mem
      rcases List.mem_append.mp mem with earlier | last
      · exact rest b earlier
      · obtain rfl := List.mem_singleton.mp last
        exact other
    · generalize sent : some j = dest at own
      cases own with
      | @looks _ svc _ found =>
        obtain ⟨e, rfl, owner⟩ := Option.map_eq_some_iff.mp sent.symm
        exact ⟨acts.length, svc, e, by simp [At], owner, by simp⟩
      | begins | sends | fails => cases sent

end TokimoRounds

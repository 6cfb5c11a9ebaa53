import TokimoBus.Registrations
import TokimoBus.Pipes

/-!
Registrations that replace each other. `Registry::insert` takes a generation under the lock of
the counter and puts the entry into the map in a second step, so two inserts may pass each
other; and what it replaces is gone, also when the registration is taken back. First the
registry alone, used by any number of tasks at once, then the broker on top of it.
-/
namespace TokimoReplacement
open TokimoFrame TokimoOutbound TokimoBroker TokimoSession TokimoIdentity TokimoProgress
open TokimoRegistrations TokimoWire LabelledRuns Pipes

/-- The registry and the inserts that have taken their generation and not stored their entry. -/
structure Shared where
  registry : Registry
  inserting : Nat → Option ServiceEntry

def Shared.init : Shared := ⟨Registry.empty, fun _ => none⟩

inductive RegistryAct where
  | allocate (i : Nat) (e : ServiceEntry)
  | publish (i : Nat) (e : ServiceEntry)
  | removeIf (service : String) (generation : UInt64)

inductive RegistryStep : Shared → RegistryAct → Shared → Prop where
  | allocate {r : Registry} {inserting : Nat → Option ServiceEntry} {i : Nat} {e : ServiceEntry}
      (new : inserting i = none) (next : e.generation = r.allocate.1) :
      RegistryStep ⟨r, inserting⟩ (.allocate i e)
        ⟨r.allocate.2, Function.update inserting i (some e)⟩
  | publish {r : Registry} {inserting : Nat → Option ServiceEntry} {i : Nat} {e : ServiceEntry}
      (ready : inserting i = some e) :
      RegistryStep ⟨r, inserting⟩ (.publish i e) ⟨r.publish e, Function.update inserting i none⟩
  | removeIf {r : Registry} {inserting : Nat → Option ServiceEntry} {service : String}
      {generation : UInt64} :
      RegistryStep ⟨r, inserting⟩ (.removeIf service generation)
        ⟨r.removeIf service generation, inserting⟩

abbrev RegistryRun (acts : List RegistryAct) (s : Shared) : Prop :=
  Run RegistryStep Shared.init acts s

variable {s s' : Shared} {acts : List RegistryAct} {a : RegistryAct} {svc : String}
  {e e' : ServiceEntry} {i j : Nat}

def publishes (svc : String) : RegistryAct → Option ServiceEntry
  | .publish _ e => if e.service = svc then some e else none
  | _ => none

def allocates (svc : String) : RegistryAct → Option ServiceEntry
  | .allocate _ e => if e.service = svc then some e else none
  | _ => none

def Settled (s : Shared) (svc : String) : Prop :=
  ∀ i e, s.inserting i = some e → e.service ≠ svc

/-- Once the inserts for a name are complete, the entry under it is the one with the largest
    generation among them; and the generations found under it one after the other do not
    decrease. -/
structure NewestWins (acts : List RegistryAct) : Prop where
  newest : ∀ n s svc e, RegistryRun (acts.take n) s → Settled s svc →
    s.registry.get svc = some e → e ∈ (acts.take n).filterMap (allocates svc) ∧
      ∀ e' ∈ (acts.take n).filterMap (allocates svc), e'.generation ≤ e.generation
  lookups : ∀ m n s s' svc e e', m ≤ n → RegistryRun (acts.take m) s →
    RegistryRun (acts.take n) s' → s.registry.get svc = some e → s'.registry.get svc = some e' →
    e.generation ≤ e'.generation

def InOrder (acts : List RegistryAct) : Prop :=
  ∀ svc, (acts.filterMap (publishes svc)).Pairwise fun e e' => e.generation ≤ e'.generation

theorem step_get (step : RegistryStep s a s') (now : s'.registry.get svc = some e) :
    publishes svc a = some e ∨ publishes svc a = none ∧ s.registry.get svc = some e := by
  cases step with
  | allocate => exact Or.inr ⟨rfl, now⟩
  | @publish r _ i e₀ ready =>
    by_cases same : e₀.service = svc
    · subst same
      have value : e₀ = e := by simpa [Registry.get, Registry.publish] using now
      exact Or.inl (by simp [publishes, value])
    · refine Or.inr ⟨if_neg same, ?_⟩
      simpa [Registry.get, Registry.publish, Function.update_of_ne (Ne.symm same)] using now
  | @removeIf r _ service generation =>
    refine Or.inr ⟨rfl, ?_⟩
    by_contra changed
    have differs : (r.removeIf service generation).get svc ≠ r.get svc := by
      rw [now]
      exact fun same => changed same.symm
    obtain ⟨rfl, e₁, found, equal⟩ := removeIf_changes differs
    simp [Registry.get, Registry.removeIf] at now found
    simp [found, equal] at now

theorem get_last (run : RegistryRun acts s) (now : s.registry.get svc = some e) :
    (acts.filterMap (publishes svc)).getLast? = some e := by
  induction run with
  | nil => cases now
  | snoc _ step ih =>
    rw [filterMap_snoc]
    rcases step_get step now with stored | ⟨quiet, old⟩
    · simp [stored]
    · simpa [quiet] using ih old

theorem step_inserting (step : RegistryStep s a s') (now : s'.inserting i = some e) :
    s.inserting i = some e ∨ a = .allocate i e := by
  cases step with
  | @allocate _ inserting j e₀ =>
    by_cases eq : i = j
    · subst eq
      simp only [Function.update_self, Option.some.injEq] at now
      exact Or.inr (by rw [now])
    · exact Or.inl ((Function.update_of_ne eq _ _).symm.trans now)
  | @publish _ inserting j =>
    by_cases eq : i = j
    · subst eq
      simp at now
    · exact Or.inl ((Function.update_of_ne eq _ _).symm.trans now)
  | removeIf => exact Or.inl now

theorem inserting_allocated (run : RegistryRun acts s) (now : s.inserting i = some e) :
    .allocate i e ∈ acts :=
  label_of_gained (p := fun s => s.inserting i = some e) (by simp [Shared.init])
    (fun _ _ _ step now => step_inserting step now) run now

theorem published_allocated (run : RegistryRun acts s)
    (mem : e ∈ acts.filterMap (publishes svc)) : e ∈ acts.filterMap (allocates svc) := by
  obtain ⟨a, inside, stored⟩ := List.mem_filterMap.mp mem
  obtain ⟨n, here⟩ := List.mem_iff_getElem?.mp inside
  obtain ⟨v, v', before, step, _⟩ := run_at run here
  cases step with
  | @publish _ _ i e₀ ready =>
    by_cases same : e₀.service = svc
    · simp only [publishes, if_pos same, Option.some.injEq] at stored
      subst stored
      have taken := List.mem_of_mem_take (inserting_allocated before ready)
      exact List.mem_filterMap.mpr ⟨_, taken, if_pos same⟩
    · simp [publishes, same] at stored
  | allocate | removeIf => cases stored

theorem allocated_published (run : RegistryRun acts s)
    (mem : e ∈ acts.filterMap (allocates svc)) :
    e ∈ acts.filterMap (publishes svc) ∨ ∃ i, s.inserting i = some e ∧ e.service = svc := by
  induction run with
  | nil => cases mem
  | @snoc acts s s' a _ step ih =>
    rw [filterMap_snoc] at mem ⊢
    have later : e ∈ acts.filterMap (publishes svc) → e ∈ acts.filterMap (publishes svc) ++
        (publishes svc a).toList := fun old => List.mem_append_left _ old
    rcases List.mem_append.mp mem with old | new
    · rcases ih old with stored | ⟨i, waiting, named⟩
      · exact Or.inl (later stored)
      · cases step with
        | @allocate r inserting j e₀ new =>
          have ne : i ≠ j := by
            rintro rfl
            cases new.symm.trans waiting
          exact Or.inr ⟨i, (Function.update_of_ne ne _ _).trans waiting, named⟩
        | @publish r inserting j e₀ ready =>
          by_cases eq : i = j
          · subst eq
            cases ready.symm.trans waiting
            exact Or.inl (List.mem_append_right _ (by simp [publishes, named]))
          · exact Or.inr ⟨i, (Function.update_of_ne eq _ _).trans waiting, named⟩
        | removeIf => exact Or.inr ⟨i, waiting, named⟩
    · cases step with
      | @allocate r inserting j e₀ =>
        by_cases same : e₀.service = svc
        · simp only [allocates, if_pos same, Option.toList_some, List.mem_singleton] at new
          subst new
          exact Or.inr ⟨j, Function.update_self _ _ _, same⟩
        · simp [allocates, same] at new
      | publish | removeIf => cases new

theorem le_last {es : List ServiceEntry}
    (ordered : es.Pairwise fun e e' => e.generation ≤ e'.generation)
    (last : es.getLast? = some e) (mem : e' ∈ es) : e'.generation ≤ e.generation := by
  induction es using List.reverseRecOn with
  | nil => cases mem
  | append_singleton es e₀ =>
    rw [List.getLast?_concat, Option.some.injEq] at last
    subst last
    rcases List.mem_append.mp mem with earlier | alone
    · exact (List.pairwise_append.mp ordered).2.2 e' earlier e₀ (List.mem_singleton.mpr rfl)
    · obtain rfl := List.mem_singleton.mp alone
      exact UInt64.le_refl _

theorem in_order_take (ordered : InOrder acts) (n : Nat) : InOrder (acts.take n) :=
  fun svc => (ordered svc).sublist ((List.take_sublist n acts).filterMap _)

theorem newest_of_order (ordered : InOrder acts) : NewestWins acts := by
  constructor
  · intro n s svc e run settled found
    have last := get_last run found
    refine ⟨published_allocated run (List.mem_of_getLast? last), fun e' mem => ?_⟩
    rcases allocated_published run mem with stored | ⟨i, waiting, named⟩
    · exact le_last (in_order_take ordered n svc) last stored
    · exact absurd named (settled i e' waiting)
  · intro m n s s' svc e e' le run run' found found'
    have stored := List.mem_of_getLast? (get_last run found)
    have sub : (acts.take m).Sublist (acts.take n) := List.take_sublist_take_left le
    exact le_last (in_order_take ordered n svc) (get_last run' found')
      ((sub.filterMap _).subset stored)

theorem found_stored (run : RegistryRun acts s) (stored : (acts[i]?.bind (publishes svc)) = some e) :
    ∃ v, RegistryRun (acts.take (i + 1)) v ∧ v.registry.get svc = some e := by
  obtain ⟨a, here, label⟩ := Option.bind_eq_some_iff.mp stored
  obtain ⟨v, v', before, step, _⟩ := run_at run here
  obtain ⟨inside, value⟩ := List.getElem?_eq_some_iff.mp here
  have now := before.snoc step
  rw [← value, List.take_append_getElem inside] at now
  refine ⟨v', now, ?_⟩
  cases step with
  | @publish r _ j e₀ =>
    by_cases same : e₀.service = svc
    · simp only [publishes, if_pos same, Option.some.injEq] at label
      subst label same
      simp [Registry.get, Registry.publish]
    · simp [publishes, same] at label
  | allocate | removeIf => cases label

/-- The newest registration wins exactly as long as the entries of each name are stored in the
    order of their generations. -/
theorem newest_iff_in_order (run : RegistryRun acts s) : NewestWins acts ↔ InOrder acts := by
  constructor
  · rintro ⟨_, lookups⟩ svc
    rw [List.pairwise_filterMap, List.pairwise_iff_getElem]
    intro i j first second order e stored e' stored'
    have here : acts[i]?.bind (publishes svc) = some e := by
      rwa [List.getElem?_eq_getElem first]
    have there : acts[j]?.bind (publishes svc) = some e' := by
      rwa [List.getElem?_eq_getElem second]
    obtain ⟨v, before, found⟩ := found_stored run here
    obtain ⟨v', after, found'⟩ := found_stored run there
    exact lookups _ _ v v' svc e e' (by omega) before after found found'
  · exact newest_of_order

def oldEntry : ServiceEntry := ⟨"video", 1, 0, [], 7, none⟩

def newEntry : ServiceEntry := ⟨"video", 2, 1, [], 8, none⟩

/-- Two inserts of one name overlap, their entries are stored in order, and the session of the
    first one leaves in between. -/
def overlapActs : List RegistryAct :=
  [.allocate 0 oldEntry, .allocate 1 newEntry, .publish 0 oldEntry, .removeIf "video" 1,
    .publish 1 newEntry]

theorem overlap_run : ∃ s, RegistryRun overlapActs s := by
  have run : RegistryRun [] Shared.init := Run.nil
  have run := run.snoc (@RegistryStep.allocate _ _ 0 oldEntry rfl rfl)
  have run := run.snoc (@RegistryStep.allocate _ _ 1 newEntry rfl rfl)
  have run := run.snoc (@RegistryStep.publish _ _ 0 oldEntry rfl)
  have run := run.snoc (@RegistryStep.removeIf _ _ "video" 1)
  have run := run.snoc (@RegistryStep.publish _ _ 1 newEntry rfl)
  exact ⟨_, run⟩

theorem overlap_newest : NewestWins overlapActs := by
  obtain ⟨s, run⟩ := overlap_run
  refine (newest_iff_in_order run).mpr fun svc => ?_
  by_cases video : "video" = svc
  · subst video
    decide
  · simp [overlapActs, List.filterMap_cons, publishes, oldEntry, newEntry, video]

/-- Two inserts of one name pass each other. -/
def passingActs : List RegistryAct :=
  [.allocate 0 oldEntry, .allocate 1 newEntry, .publish 1 newEntry, .publish 0 oldEntry]

theorem passing_run : ∃ s, RegistryRun passingActs s ∧ Settled s "video" ∧
    s.registry.get "video" = some oldEntry := by
  have run : RegistryRun [] Shared.init := Run.nil
  have run := run.snoc (@RegistryStep.allocate _ _ 0 oldEntry rfl rfl)
  have run := run.snoc (@RegistryStep.allocate _ _ 1 newEntry rfl rfl)
  have run := run.snoc (RegistryStep.publish (Function.update_self _ _ _))
  have run := run.snoc (@RegistryStep.publish _ _ 0 oldEntry rfl)
  refine ⟨_, run, ?_, rfl⟩
  intro i e waiting
  by_cases zero : i = 0
  · subst zero
    cases waiting
  · by_cases one : i = 1
    · subst one
      cases waiting
    · simp [zero, one] at waiting

theorem older_wins : ¬ ∀ acts s, RegistryRun acts s → NewestWins acts := by
  intro claim
  obtain ⟨s, run, settled, found⟩ := passing_run
  obtain ⟨newest, _⟩ := claim passingActs s run
  obtain ⟨_, largest⟩ := newest 4 s "video" oldEntry run settled found
  have taken : newEntry ∈ (passingActs.take 4).filterMap (allocates "video") := by decide
  exact absurd (largest newEntry taken) (by decide)

section
variable {env : Env} {w w' : World} {a : Act} {trace : List Act} {k : ConnId}

def storing (k : ConnId) : Phase → Option ServiceEntry
  | .live s .publish => some (s.entry k)
  | _ => none

def shared (w : World) : Shared := ⟨w.broker.registry, fun k => storing k (w.phase k)⟩

def stores (svc : String) : Act → Option ServiceEntry
  | .publish _ e => if e.service = svc then some e else none
  | _ => none

theorem storing_update (phase : ConnId → Phase) (k : ConnId) (p : Phase) :
    (fun j => storing j (Function.update phase k p j)) =
      Function.update (fun j => storing j (phase j)) k (storing k p) := by
  funext j
  by_cases eq : j = k
  · subst eq
    simp
  · simp [eq]

theorem storing_keeps {phase : ConnId → Phase} {p q : Phase} (here : phase k = q)
    (same : storing k p = storing k q) :
    (fun j => storing j (Function.update phase k p j)) = fun j => storing j (phase j) := by
  rw [storing_update, same, ← here]
  exact Function.update_eq_self _ _

theorem step_shared (h : Step env w a w') : ∃ steps, Run RegistryStep (shared w) steps (shared w') ∧
    ∀ svc, steps.filterMap (publishes svc) = [a].filterMap (stores svc) := by
  have quiet : ∀ {w'' : World} {b : Act}, w''.broker.registry = w.broker.registry →
      (fun j => storing j (w''.phase j)) = (fun j => storing j (w.phase j)) →
      (∀ svc, stores svc b = none) → ∃ steps, Run RegistryStep (shared w) steps (shared w'') ∧
        ∀ svc, steps.filterMap (publishes svc) = [b].filterMap (stores svc) := by
    intro w'' b registry phases silent
    refine ⟨[], ?_, fun svc => by simp [silent]⟩
    unfold shared
    rw [registry, phases]
    exact Run.nil
  cases h with
  | @generate k h id s here named =>
    have step : RegistryStep (shared w) (.allocate k (s.entry k)) ⟨w.broker.registry.allocate.2,
        Function.update (fun j => storing j (w.phase j)) k (some (s.entry k))⟩ :=
      .allocate (by rw [here]; rfl) (by rw [named]; rfl)
    refine ⟨[.allocate k (s.entry k)], run_single ?_, fun svc => rfl⟩
    convert step using 1
    exact congrArg (Shared.mk _) (storing_update w.phase k (.live s .publish))
  | @publish k s here =>
    have step : RegistryStep (shared w) (.publish k (s.entry k))
        ⟨w.broker.registry.publish (s.entry k),
          Function.update (fun j => storing j (w.phase j)) k none⟩ :=
      .publish (by rw [here]; rfl)
    refine ⟨[.publish k (s.entry k)], run_single ?_, fun svc => rfl⟩
    convert step using 1
    exact congrArg (Shared.mk _) (storing_update w.phase k (.live s .ack))
  | @rollback k s here | @removeIf k s here =>
    have step : RegistryStep (shared w) (.removeIf s.service s.generation)
        ⟨w.broker.registry.removeIf s.service s.generation, fun j => storing j (w.phase j)⟩ :=
      .removeIf
    refine ⟨[.removeIf s.service s.generation], run_single ?_, fun svc => rfl⟩
    convert step using 1
    exact congrArg (Shared.mk _) (storing_keeps here rfl)
  | hello here =>
    refine quiet rfl (storing_keeps here ?_) fun _ => rfl
    unfold helloPhase
    split <;> rfl
  | consume here | check here =>
    refine quiet rfl (storing_keeps here ?_) fun _ => rfl
    split <;> rfl
  | @target _ _ _ _ _ found here =>
    refine quiet rfl (storing_keeps here ?_) fun _ => rfl
    cases found <;> rfl
  | accept here | noHello here | reject here | rejectBroken here | clientId here | ack here
  | ackBroken here | attach here | probe here | fanout here | deliver here | undelivered here
  | fanned here | hangup here | detach here | forget here | abort here =>
    exact quiet rfl (storing_keeps here rfl) fun _ => rfl
  | _ => exact quiet rfl rfl fun _ => rfl

/-- The broker uses its registry as any number of tasks may. -/
theorem run_shared (run : BrokerRun env trace w) : ∃ steps, RegistryRun steps (shared w) ∧
    ∀ svc, steps.filterMap (publishes svc) = trace.filterMap (stores svc) := by
  induction run with
  | nil => exact ⟨[], Run.nil, fun svc => rfl⟩
  | @snoc trace w w' a _ step ih =>
    obtain ⟨before, run, same⟩ := ih
    obtain ⟨after, more, same'⟩ := step_shared step
    refine ⟨before ++ after, run_append run more, fun svc => ?_⟩
    rw [List.filterMap_append, List.filterMap_append, same, same']

/-- While the sessions of each name come to the registry in the order of their generations, the
    one found there is the newest that has come. -/
theorem registered_newest (run : BrokerRun env trace w)
    (ordered : ∀ svc, (trace.filterMap (stores svc)).Pairwise fun e e' =>
      e.generation ≤ e'.generation)
    (found : w.broker.registry.get svc = some e) :
    ∀ e' ∈ trace.filterMap (stores svc), e'.generation ≤ e.generation := by
  intro e' mem
  obtain ⟨steps, registry, same⟩ := run_shared run
  rw [← same svc] at mem
  have sorted := ordered svc
  rw [← same svc] at sorted
  exact le_last sorted (get_last registry found) mem

theorem found_earlier (run : Run (Step env) w trace w') (quiet : ∀ b ∈ trace, stores svc b = none)
    (now : w'.broker.registry.get svc = some e) : w.broker.registry.get svc = some e := by
  induction run with
  | nil => exact now
  | @snoc trace v v' b _ step ih =>
    have earlier := ih fun b mem => quiet b (List.mem_append_left _ mem)
    rcases entries_step step now with old | ⟨s, _, rfl, value, named⟩
    · exact earlier old
    · have silent := quiet _ (List.mem_append_right _ (List.mem_singleton.mpr rfl))
      have here : e.service = svc := by rw [value]; exact named
      simp [stores, here] at silent

/-- Connection `k` has put its entry into the registry at `i`, has failed to send its HelloAck
    and takes the entry back at `j`, and nobody else has registered the name in between. -/
structure TakenBack (trace : List Act) (k : ConnId) (e : ServiceEntry) (i j : Nat) : Prop where
  listed : At trace i (.publish k e)
  later : i < j
  undone : At trace j (.rollback k)
  alone : ∀ b ∈ (trace.take j).drop (i + 1), stores e.service b = none

def Restored (before after : World) (svc : String) : Prop :=
  after.broker.registry.get svc = before.broker.registry.get svc

theorem publish_session (h : Step env w (.publish k e) w') : ∃ s, w.session k = some s ∧
    e = s.entry k ∧ w'.broker.registry.get e.service = some e := by
  obtain ⟨s, here, value, after⟩ := publish_inv h
  refine ⟨s, session_of_phase here, value, ?_⟩
  rw [after]
  simp [World.setPhase, World.withBroker, Broker.withRegistry, Registry.get, Registry.publish]

theorem rollback_leaves_none (run : BrokerRun env trace w) (back : TakenBack trace k e i j)
    {after : World} (last : BrokerRun env (trace.take (j + 1)) after) :
    after.broker.registry.get e.service = none := by
  obtain ⟨listed, later, undone, alone⟩ := back
  obtain ⟨v, v', before, step, _⟩ := run_at run undone
  obtain ⟨inside, value⟩ := List.getElem?_eq_some_iff.mp undone
  have whole := before.snoc step
  rw [← value, List.take_append_getElem inside] at whole
  rw [trace_unique last whole]
  have early : At (trace.take j) i (.publish k e) := by
    rwa [At, List.getElem?_take_of_lt later]
  obtain ⟨u, u', start, first, rest⟩ := run_at before early
  obtain ⟨s, owner, entry, stored⟩ := publish_session first
  cases step with
  | @rollback _ s' here =>
    have same := session_keeps_run (reachable_step ⟨_, start⟩ first) rest (session_keeps first owner)
    rw [session_of_phase here] at same
    cases same
    have service : e.service = s.service := by rw [entry]; rfl
    have generation : e.generation = s.generation := by rw [entry]; rfl
    change (v.broker.registry.removeIf s.service s.generation).get e.service = none
    rw [← service, ← generation]
    cases found : v.broker.registry.get e.service with
    | none =>
      by_contra changed
      have differs : (v.broker.registry.removeIf e.service e.generation).get e.service ≠
          v.broker.registry.get e.service := by rwa [found]
      obtain ⟨_, _, listed, _⟩ := removeIf_changes differs
      cases found.symm.trans listed
    | some e' =>
      have old := found_earlier rest alone found
      cases old.symm.trans stored
      unfold Registry.get at found
      simp [Registry.removeIf, Registry.get, found]

/-- Taking a registration back restores the registry exactly when there was nothing to restore. -/
theorem restored_iff_unregistered (run : BrokerRun env trace w) (back : TakenBack trace k e i j)
    {before after : World} (_ : BrokerRun env (trace.take i) before)
    (last : BrokerRun env (trace.take (j + 1)) after) :
    Restored before after e.service ↔ before.broker.registry.get e.service = none := by
  have gone := rollback_leaves_none run back last
  unfold Restored
  rw [gone]
  exact eq_comm

def World.enrolled (w : World) (k : ConnId) (h : HelloRequest) : World :=
  let admitted := (w.broker.consumeToken h.service h.authToken).2.takeClientId.2
  (w.withBroker (admitted.withRegistry admitted.registry.allocate.2)).setPhase k
    (.live (sessionOf w.broker h) .publish)

theorem enrolls {h : HelloRequest} (fresh : w.phase k = .unused)
    (major : h.protocol.major = ProtocolVersion.current.major)
    (issued : w.broker.tokens h.service = some h.authToken) :
    Run (Step env) w [.accept k, .hello k h, .consume k h true,
      .clientId k (sessionOf w.broker h).clientId, .generate k (sessionOf w.broker h)]
      (World.enrolled w k h) := by
  have verdict : (w.broker.consumeToken h.service h.authToken).1 = true := by
    simp [Broker.consumeToken, issued]
  have phase : helloPhase h = .check h := by simp [helloPhase, major]
  have run : Run (Step env) w [] w := Run.nil
  have run := run.snoc (Step.accept fresh)
  have run := run.snoc (@Step.hello _ _ k h (setPhase_here _ _ _))
  rw [setPhase_setPhase, phase] at run
  have run := run.snoc (@Step.consume _ _ k h true (setPhase_here _ _ _) verdict.symm)
  rw [setPhase_broker] at run
  have run := run.snoc (@Step.clientId _ _ k h (setPhase_here _ _ _))
  rw [setPhase_broker] at run
  have run := run.snoc (@Step.generate _ _ k h _ (sessionOf w.broker h) (setPhase_here _ _ _) rfl)
  rw [setPhase_broker] at run
  exact run

theorem acks_fail {s : Session} (here : w.phase k = .live s .publish) :
    ∃ w', Run (Step env) w [.publish k (s.entry k), .ackBroken k [], .rollback k] w' ∧
      w'.broker.sessions = w.broker.sessions ∧
      ∀ j, j ≠ k → w'.phase j = w.phase j ∧ w'.out j = w.out j := by
  have run := run_single (@Step.publish env w k s here)
  have run := run.snoc (@Step.ackBroken _ _ k s [] (setPhase_here _ _ _) List.nil_prefix)
  have run := run.snoc (Step.rollback (setPhase_here _ _ _))
  refine ⟨_, run, rfl, fun j other => ?_⟩
  simp [World.setPhase, World.setOut, World.withBroker, Function.update_of_ne other]

def failActs (k : ConnId) (s : Session) : List Act :=
  [.accept k, .hello k s.hello, .consume k s.hello true, .clientId k s.clientId, .generate k s,
    .publish k (s.entry k), .ackBroken k [], .rollback k]

def firstFailsActs : List Act := issueActs standardEnv 0 "video" 0 0 ++ failActs 0 videoSession

theorem first_restored : ∃ before after, BrokerRun standardEnv (firstFailsActs.take 7) before ∧
    BrokerRun standardEnv (firstFailsActs.take 10) after ∧ (Restored before after "video" ↔
      before.broker.registry.get "video" = none) := by
  have issued := token_issued standardEnv World.init (n := 0) rfl "video" 0
  have first := run_append issued (@enrolls standardEnv _ 0 (videoHello videoToken) rfl rfl rfl)
  obtain ⟨w, rest, _⟩ := @acks_fail standardEnv _ 0 videoSession (setPhase_here _ _ _)
  have whole := run_append first rest
  rw [List.append_assoc] at whole
  have run : BrokerRun standardEnv firstFailsActs w := whole
  have back : TakenBack firstFailsActs 0 (videoSession.entry 0) 7 9 :=
    ⟨rfl, by omega, rfl, by decide⟩
  exact ⟨_, w, first, run, restored_iff_unregistered run back first run⟩

abbrev secondVideo : Session := ⟨videoHello (tokenText 0 1 1), 2, 2⟩

def secondFailsActs : List Act :=
  videoActs ++ issueActs standardEnv 0 "video" 0 1 ++ failActs 1 secondVideo

def Live (w : World) (k : ConnId) (s : Session) : Prop :=
  w.phase k = .live s .read ∧ w.broker.sessions (s.service, s.generation) = some ⟨k⟩ ∧
    (w.out k).IsOpen

/-- A session that is connected all along is not found any more. -/
theorem predecessor_lost : ¬ ∀ trace w k e i j before after k' s, BrokerRun standardEnv trace w →
    TakenBack trace k e i j → BrokerRun standardEnv (trace.take i) before →
    BrokerRun standardEnv (trace.take (j + 1)) after → s.service = e.service →
    Live before k' s → Live after k' s → Restored before after e.service := by
  intro claim
  have issued := run_append video_run (token_issued standardEnv videoWorld (n := 0) rfl "video" 0)
  have first := run_append issued
    (@enrolls standardEnv _ 1 (videoHello (tokenText 0 1 1)) rfl rfl rfl)
  obtain ⟨w, rest, sessions, apart⟩ := @acks_fail standardEnv _ 1 secondVideo (setPhase_here _ _ _)
  have whole := run_append first rest
  rw [List.append_assoc] at whole
  have run : BrokerRun standardEnv secondFailsActs w := whole
  have back : TakenBack secondFailsActs 1 (secondVideo.entry 1) 18 20 :=
    ⟨rfl, by omega, rfl, by decide⟩
  have before : Live (World.enrolled (World.issued standardEnv videoWorld "video" 0) 1
      (videoHello (tokenText 0 1 1))) 0 videoSession := ⟨rfl, rfl, by decide⟩
  obtain ⟨phase, out⟩ := apart 0 (by decide)
  have after : Live w 0 videoSession := by
    unfold Live
    rw [sessions, phase, out]
    exact before
  have same := claim _ w 1 _ 18 20 _ w 0 videoSession run back first run rfl before after
  have gone := rollback_leaves_none run back run
  unfold Restored at same
  rw [gone] at same
  cases same

end

end TokimoReplacement

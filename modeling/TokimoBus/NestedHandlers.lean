import TokimoBus.NestedFacts

/-!
The handlers of nested calls. The futures of a running handler are invokes that it has begun
after it started, each its own, and none has stopped in the middle of a poll unless the handler
polls it.
-/
namespace TokimoNested
open TokimoFrame TokimoOutbound TokimoBroker TokimoSession TokimoClient TokimoSystem
open LabelledRuns
variable {env : Env} {debug : BusFrame → String} {programs : Programs} {cap : Capacity}
  {s s' : Nested} {u v : System} {a : NestedAct} {x : SystemAct} {acts : List NestedAct}
  {xs ys : List SystemAct} {k : ConnId} {t : TaskId} {i : InvokeId} {act : Activation}
  {encoder : Encoder} {c c' : Client} {b : ClientAct}

abbrev Happens (xs : List SystemAct) (p : Nat) (x : SystemAct) : Prop := xs[p]? = some x

theorem step_cancelled (step : ClientStep encoder debug c b c')
    (now : c'.invokePhase i = .cancelled) : c.invokePhase i = .cancelled ∨ b = .cancel i := by
  have back : ∀ {j : InvokeId} {p : InvokePhase}, (i = j → p = .cancelled → b = .cancel i) →
      Function.update c.invokePhase j p i = .cancelled →
      c.invokePhase i = .cancelled ∨ b = .cancel i := by
    intro j p made now
    exact moved_made (P := fun p => p = InvokePhase.cancelled) made now
  cases step with
  | cancelStart | cancelAwait =>
    refine back ?_ now
    rintro rfl _
    rfl
  | begin | number | register | send | sendClosed | complete | senderGone =>
    exact back (by simp) now
  | _ => exact Or.inl now

theorem step_midway (step : ClientStep encoder debug c b c')
    (now : midway (c'.invokePhase i) = true) :
    midway (c.invokePhase i) = true ∨ ∃ r, b = .number i r := by
  cases step with
  | @number j here =>
    by_cases eq : i = j
    · subst eq
      exact Or.inr ⟨_, rfl⟩
    · refine Or.inl ?_
      simpa [Client.setInvokePhase, Client.takeReqId, eq] using now
  | register here =>
    exact Or.inl (moved_back (P := fun p => midway p = true) here (fun _ => rfl) now)
  | begin here | send here | sendClosed here | complete here | senderGone here
  | cancelStart here | cancelAwait here =>
    exact Or.inl (moved_back (P := fun p => midway p = true) here (by simp [midway]) now)
  | _ => exact Or.inl now

theorem running_kept {inv : Invoke} {h : HandlerId} (step : ClientStep encoder debug c b c')
    (going : ∀ inv h result, b ≠ .handled t inv h result) (now : c.task t = .running inv h) :
    c'.task t = .running inv h := by
  have kept : ∀ {j : TaskId} {p q : TaskPhase}, c.task j = q → (t = j → q ≠ .running inv h) →
      Function.update c.task j p t = .running inv h := by
    intro j p q here other
    exact moved_at (P := fun p => p = TaskPhase.running inv h) here
      (fun eq was => absurd was (other eq)) now
  cases step with
  | handled here =>
    refine kept here ?_
    rintro rfl
    exact absurd rfl (going _ _ _)
  | invoke _ here | handle here | unhandled here | reply here | replyClosed here =>
    exact kept here (by simp)
  | _ => exact now

/-- A running handler and its futures. -/
structure Sound (xs : List SystemAct) (c : Client) (k : ConnId) (t : TaskId) (act : Activation) :
    Prop where
  running : ∃ inv h, c.task t = .running inv h
  begun : ∀ n ∈ act.live, c.invokePhase (act.id n) ≠ .unused ∧ c.invokePhase (act.id n) ≠ .cancelled
  polled : ∀ n ∈ act.live, midway (c.invokePhase (act.id n)) = true → n ∈ act.program.waits
  after : ∃ p inv h, Happens xs p (.client k (.handle t inv h)) ∧
    ∀ n ∈ act.live, ∃ q x, p < q ∧ Happens xs q (.client k (.begin (act.id n) x))

theorem index_append {α : Type} {as : List α} {p : Nat} {a : α} (bs : List α)
    (here : as[p]? = some a) : (as ++ bs)[p]? = some a := by
  rw [List.getElem?_append_left]
  · exact here
  · exact (List.getElem?_eq_some_iff.mp here).1

theorem sound_later (sound : Sound xs c k t act) (ys : List SystemAct) :
    Sound (xs ++ ys) c k t act := by
  obtain ⟨p, inv, h, handled, begins⟩ := sound.after
  refine ⟨sound.running, sound.begun, sound.polled, p, inv, h, index_append ys handled, ?_⟩
  intro n live
  obtain ⟨q, x, later, here⟩ := begins n live
  exact ⟨q, x, later, index_append ys here⟩

/-- A step of its process that does not end a handler, drops none of its futures and polls no
    other than the handler does. -/
theorem sound_step (step : ClientStep encoder debug c b c') (sound : Sound xs c k t act)
    (going : ∀ inv h result, b ≠ .handled t inv h result)
    (keeps : ∀ n ∈ act.live, b ≠ .cancel (act.id n))
    (polls : ∀ n ∈ act.live, ∀ r, b = .number (act.id n) r → n ∈ act.program.waits) :
    Sound xs c' k t act := by
  constructor
  · obtain ⟨inv, h, now⟩ := sound.running
    exact ⟨inv, h, running_kept step going now⟩
  · intro n live
    obtain ⟨used, kept⟩ := sound.begun n live
    constructor
    · exact (args_keep step used).2
    · intro gone
      rcases step_cancelled step gone with early | dropped
      · exact kept early
      · exact keeps n live dropped
  · intro n live now
    rcases step_midway step now with early | ⟨r, number⟩
    · exact sound.polled n live early
    · exact polls n live r number
  · exact sound.after

structure Activated (xs : List SystemAct) (s : Nested) : Prop where
  sound : ∀ k t act, s.activation k t = some act → Sound xs (s.system.client k) k t act
  covers : ∀ k t inv h, (s.system.client k).task t = .running inv h → s.activation k t ≠ none
  own : ∀ k t t' act act' n n', s.activation k t = some act → s.activation k t' = some act' →
    n ∈ act.live → n' ∈ act'.live → act.id n = act'.id n' → t = t' ∧ n = n'

theorem activation_set {j : ConnId} {t' : TaskId} {new : Option Activation}
    (now : (s.setActivation k t new).activation j t' = some act) :
    (j = k ∧ t' = t ∧ new = some act) ∨ (j = k → t' ≠ t) ∧ s.activation j t' = some act := by
  simp only [Nested.setActivation] at now
  by_cases process : j = k
  · subst process
    rw [Function.update_self] at now
    by_cases task : t' = t
    · subst task
      rw [Function.update_self] at now
      exact Or.inl ⟨rfl, rfl, now⟩
    · rw [Function.update_of_ne task] at now
      exact Or.inr ⟨fun _ => task, now⟩
  · rw [Function.update_of_ne process] at now
    exact Or.inr ⟨fun same => absurd same process, now⟩

theorem client_here (u : System) (k : ConnId) (b : ClientAct) (c : Client) :
    (u.clientMoved k b c).client k = c := by
  simp [System.clientMoved]

theorem client_elsewhere {j : ConnId} (other : j ≠ k) :
    (u.clientMoved k b c).client j = u.client j := by
  simp [System.clientMoved, other]

theorem activated_set {new : Option Activation} (known : Activated xs s)
    (elsewhere : ∀ j, j ≠ k → v.client j = s.system.client j)
    (others : ∀ t' act', t' ≠ t → s.activation k t' = some act' →
      Sound (xs ++ ys) (v.client k) k t' act')
    (mine : ∀ act, new = some act → Sound (xs ++ ys) (v.client k) k t act)
    (covered : ∀ t' inv h, (v.client k).task t' = .running inv h →
      t' = t ∧ new ≠ none ∨ t' ≠ t ∧ (s.system.client k).task t' = .running inv h)
    (own : ∀ act t' act' n n', new = some act → s.activation k t' = some act' → t' ≠ t →
      n ∈ act.live → n' ∈ act'.live → act.id n ≠ act'.id n')
    (apart : ∀ act n n', new = some act → n ∈ act.live → n' ∈ act.live → act.id n = act.id n' →
      n = n') :
    Activated (xs ++ ys) ((s.setSystem v).setActivation k t new) := by
  constructor
  · intro j t' act' now
    rcases activation_set now with ⟨rfl, rfl, same⟩ | ⟨other, old⟩
    · exact mine act' same
    · by_cases process : j = k
      · subst process
        exact others t' act' (other rfl) old
      · have sound := sound_later (known.sound j t' act' old) ys
        rwa [← elsewhere j process] at sound
  · intro j t' inv h now
    by_cases process : j = k
    · subst process
      rcases covered t' inv h now with ⟨rfl, some⟩ | ⟨other, was⟩
      · simpa [Nested.setActivation] using some
      · simpa [Nested.setActivation, Nested.setSystem, other] using known.covers j t' inv h was
    · have was : (s.system.client j).task t' = .running inv h := by
        rw [← elsewhere j process]
        exact now
      simpa [Nested.setActivation, Nested.setSystem, process] using known.covers j t' inv h was
  · intro j t₁ t₂ act₁ act₂ n₁ n₂ first second live₁ live₂ same
    rcases activation_set first with ⟨rfl, rfl, new₁⟩ | ⟨other₁, old₁⟩
    · rcases activation_set second with ⟨_, rfl, new₂⟩ | ⟨other₂, old₂⟩
      · rw [new₁] at new₂
        cases new₂
        exact ⟨rfl, apart act₁ n₁ n₂ new₁ live₁ live₂ same⟩
      · exact absurd same (own act₁ t₂ act₂ n₁ n₂ new₁ old₂ (other₂ rfl) live₁ live₂)
    · rcases activation_set second with ⟨rfl, rfl, new₂⟩ | ⟨other₂, old₂⟩
      · exact absurd same.symm (own act₂ t₁ act₁ n₂ n₁ new₂ old₁ (other₁ rfl) live₂ live₁)
      · exact known.own j t₁ t₂ act₁ act₂ n₁ n₂ old₁ old₂ live₁ live₂ same

theorem activated_system (known : Activated xs s) (one : SystemStep env debug s.system x v)
    (free : Free s x) : Activated (xs ++ [x]) (s.moved x v) := by
  cases one with
  | broker =>
    constructor
    · intro k t act now
      exact sound_later (known.sound k t act now) _
    · exact known.covers
    · exact known.own
  | @client j b c step =>
    constructor
    · intro k t act now
      simp only [Nested.moved, System.clientMoved] at now ⊢
      by_cases process : k = j
      · subst process
        rw [Function.update_self]
        refine sound_later (sound_step step (known.sound k t act now) ?_ ?_ ?_) _
        · rintro inv h result rfl
          exact free
        · intro n live dropped
          subst dropped
          exact free t act n now live rfl
        · intro n live r number
          subst number
          exact free t act n now live rfl
      · rw [Function.update_of_ne process]
        exact sound_later (known.sound k t act now) _
    · intro k t inv h now
      simp only [Nested.moved, System.clientMoved] at now ⊢
      by_cases process : k = j
      · subst process
        rw [Function.update_self] at now
        rcases (step_task step t).running inv h now with was | rfl
        · exact known.covers k t inv h was
        · exact free.elim
      · rw [Function.update_of_ne process] at now
        exact known.covers k t inv h now
    · exact known.own

theorem activated_handle {inv : Invoke} {h : HandlerId} (known : Activated xs s)
    (one : SystemStep env debug s.system (.client k (.handle t inv h)) v) (caller : CallerCtx)
    (payload : Bytes) :
    Activated (xs ++ [.client k (.handle t inv h)]) ((s.setSystem v).setActivation k t
      (some ⟨∅, programs k h payload caller, fun _ => 0⟩)) := by
  cases one with
  | @client _ _ c step =>
    refine activated_set known ?_ ?_ ?_ ?_ ?_ ?_
    · intro j other
      exact client_elsewhere other
    · intro t' act' _ old
      rw [client_here]
      exact sound_later (sound_step step (known.sound k t' act' old) (by simp) (by simp) (by simp)) _
    · intro act same
      cases same
      rw [client_here]
      constructor
      · cases step with
        | handle => exact ⟨inv, h, by simp [Client.setTask]⟩
      · simp
      · simp
      · exact ⟨xs.length, inv, h, by simp [Happens], by simp⟩
    · intro t' inv' h' now
      rw [client_here] at now
      by_cases task : t' = t
      · exact Or.inl ⟨task, by simp⟩
      · refine Or.inr ⟨task, ?_⟩
        rcases (step_task step t').running inv' h' now with was | same
        · exact was
        · cases same
          exact absurd rfl task
    · intro act t' act' n n' same _ _ live
      cases same
      simp at live
    · intro act n n' same live
      cases same
      simp at live

theorem update_kept {live : Finset Slot} {n m : Slot} {id : Slot → InvokeId} (new : n ∉ live)
    (mem : m ∈ live) : Function.update id n i m = id m := by
  apply Function.update_of_ne
  rintro rfl
  exact new mem

theorem sound_begin {live : Finset Slot} {n : Slot} {new : n ∉ live} {y : InvokeArgs}
    {next : Program (insert n live)} {id : Slot → InvokeId}
    (sound : Sound xs c k t ⟨live, .invoke n new y next, id⟩) (started : c.invokePhase i = .start) :
    Sound (xs ++ [.client k (.begin i y)]) c k t ⟨insert n live, next, Function.update id n i⟩ := by
  constructor
  · exact sound.running
  · intro m mem
    rcases Finset.mem_insert.mp mem with rfl | mem
    · simp [started]
    · simp only [update_kept new mem]
      exact sound.begun m mem
  · intro m mem middle
    rcases Finset.mem_insert.mp mem with rfl | mem
    · simp [started, midway] at middle
    · simp only [update_kept new mem] at middle
      simpa [Program.waits] using sound.polled m mem middle
  · obtain ⟨p, inv, h, handled, begins⟩ := sound.after
    refine ⟨p, inv, h, index_append _ handled, ?_⟩
    intro m mem
    rcases Finset.mem_insert.mp mem with rfl | mem
    · refine ⟨xs.length, y, (List.getElem?_eq_some_iff.mp handled).1, ?_⟩
      simp [Happens]
    · obtain ⟨q, z, later, there⟩ := begins m mem
      simp only [update_kept new mem]
      exact ⟨q, z, later, index_append _ there⟩

theorem begin_apart {live : Finset Slot} {n m m' : Slot} {id : Slot → InvokeId} (new : n ∉ live)
    (unused : ∀ l ∈ live, id l ≠ i)
    (apart : ∀ l ∈ live, ∀ l' ∈ live, id l = id l' → l = l') (mem : m ∈ insert n live)
    (mem' : m' ∈ insert n live)
    (clash : Function.update id n i m = Function.update id n i m') : m = m' := by
  rcases Finset.mem_insert.mp mem with eq | inside
  · rcases Finset.mem_insert.mp mem' with eq' | inside'
    · rw [eq, eq']
    · rw [eq, Function.update_self, update_kept new inside'] at clash
      exact absurd clash.symm (unused m' inside')
  · rcases Finset.mem_insert.mp mem' with eq' | inside'
    · rw [eq', Function.update_self, update_kept new inside] at clash
      exact absurd clash (unused m inside)
    · rw [update_kept new inside, update_kept new inside'] at clash
      exact apart m inside m' inside' clash

theorem activated_invoke {live : Finset Slot} {n : Slot} {new : n ∉ live} {y : InvokeArgs}
    {next : Program (insert n live)} {id : Slot → InvokeId} (known : Activated xs s)
    (here : s.activation k t = some ⟨live, .invoke n new y next, id⟩)
    (one : SystemStep env debug s.system (.client k (.begin i y)) v) :
    Activated (xs ++ [.client k (.begin i y)]) ((s.setSystem v).setActivation k t
      (some ⟨insert n live, next, Function.update id n i⟩)) := by
  have sound := known.sound k t _ here
  cases one with
  | @client _ _ c step =>
    have fresh : (s.system.client k).invokePhase i = .unused := by
      cases step with
      | begin unused => exact unused
    have started : c.invokePhase i = .start := by
      cases step with
      | begin => simp [Client.begin, Client.setInvokePhase]
    have old := sound_step step sound (by simp) (by simp) (by simp)
    refine activated_set known ?_ ?_ ?_ ?_ ?_ ?_
    · intro j other
      exact client_elsewhere other
    · intro t' act' _ old
      rw [client_here]
      exact sound_later (sound_step step (known.sound k t' act' old) (by simp) (by simp) (by simp)) _
    · intro act same
      cases same
      rw [client_here]
      exact sound_begin old started
    · intro t' inv' h' now
      rw [client_here] at now
      have was : (s.system.client k).task t' = .running inv' h' := by
        rcases (step_task step t').running inv' h' now with was | same
        · exact was
        · cases same
      by_cases task : t' = t
      · exact Or.inl ⟨task, by simp⟩
      · exact Or.inr ⟨task, was⟩
    · intro act t' act' m m' same there other mem mem' clash
      cases same
      have begun := (known.sound k t' act' there).begun m' mem'
      simp only at clash mem
      rcases Finset.mem_insert.mp mem with rfl | mem
      · rw [Function.update_self] at clash
        exact begun.1 (clash ▸ fresh)
      · rw [update_kept new mem] at clash
        exact other (known.own k t t' _ act' m m' here there mem mem' clash).1.symm
    · intro act m m' same mem mem' clash
      cases same
      have unused : ∀ l ∈ live, id l ≠ i := by
        rintro l inside rfl
        exact (sound.begun l inside).1 fresh
      exact begin_apart new unused (fun l inside l' inside' same =>
        (known.own k t t _ _ l l' here here inside inside' same).2) mem mem' clash

theorem sound_erase {live : Finset Slot} {n : Slot} {program : Program live}
    {id : Slot → InvokeId} (sound : Sound xs c k t ⟨live, program, id⟩)
    (next : Program (live.erase n))
    (still : ∀ m ∈ live.erase n, midway (c.invokePhase (id m)) = false) :
    Sound xs c k t ⟨live.erase n, next, id⟩ := by
  constructor
  · exact sound.running
  · intro m mem
    exact sound.begun m (Finset.mem_of_mem_erase mem)
  · intro m mem middle
    rw [still m mem] at middle
    cases middle
  · obtain ⟨p, inv, h, handled, begins⟩ := sound.after
    exact ⟨p, inv, h, handled, fun m mem => begins m (Finset.mem_of_mem_erase mem)⟩

theorem activated_erase {live : Finset Slot} {n : Slot} {program : Program live}
    {id : Slot → InvokeId} {next : Program (live.erase n)} (known : Activated xs s)
    (here : s.activation k t = some ⟨live, program, id⟩)
    (elsewhere : ∀ j, j ≠ k → v.client j = s.system.client j)
    (others : ∀ t' act', t' ≠ t → s.activation k t' = some act' →
      Sound (xs ++ ys) (v.client k) k t' act')
    (mine : Sound (xs ++ ys) (v.client k) k t ⟨live.erase n, next, id⟩)
    (tasks : ∀ t' inv h, (v.client k).task t' = .running inv h →
      (s.system.client k).task t' = .running inv h) :
    Activated (xs ++ ys) ((s.setSystem v).setActivation k t (some ⟨live.erase n, next, id⟩)) := by
  refine activated_set known elsewhere others ?_ ?_ ?_ ?_
  · intro act same
    cases same
    exact mine
  · intro t' inv h now
    by_cases task : t' = t
    · exact Or.inl ⟨task, by simp⟩
    · exact Or.inr ⟨task, tasks t' inv h now⟩
  · intro act t' act' m m' same there other mem mem' clash
    cases same
    exact other (known.own k t t' _ act' m m' here there (Finset.mem_of_mem_erase mem) mem' clash).1.symm
  · intro act m m' same mem mem' clash
    cases same
    exact (known.own k t t _ _ m m' here here (Finset.mem_of_mem_erase mem)
      (Finset.mem_of_mem_erase mem') clash).2

theorem still_of_waits {live : Finset Slot} {program : Program live} {id : Slot → InvokeId}
    {n : Slot} (sound : Sound xs c k t ⟨live, program, id⟩)
    (still : ∀ m ∈ program.waits, midway (c.invokePhase (id m)) = false) :
    ∀ m ∈ live.erase n, midway (c.invokePhase (id m)) = false := by
  intro m mem
  cases middle : midway (c.invokePhase (id m)) with
  | false => rfl
  | true =>
    have waits := sound.polled m (Finset.mem_of_mem_erase mem) middle
    rw [still m waits] at middle
    cases middle

theorem activated_dropped {live : Finset Slot} {n : Slot} {program : Program live}
    {id : Slot → InvokeId} (next : Program (live.erase n)) (known : Activated xs s)
    (here : s.activation k t = some ⟨live, program, id⟩) (own : n ∈ live)
    (still : ∀ m ∈ program.waits, midway ((s.system.client k).invokePhase (id m)) = false)
    (one : SystemStep env debug s.system (.client k (.cancel (id n))) v) :
    Activated (xs ++ [.client k (.cancel (id n))])
      ((s.setSystem v).setActivation k t (some ⟨live.erase n, next, id⟩)) := by
  cases one with
  | @client _ _ c step =>
    have sound := known.sound k t _ here
    have rest := sound_erase sound next (still_of_waits sound still)
    have alone : ∀ t' act' m, s.activation k t' = some act' → m ∈ act'.live →
        act'.id m = id n → t = t' ∧ n = m := by
      intro t' act' m there mem same
      exact known.own k t t' _ act' n m here there own mem same.symm
    refine activated_erase known here (fun j other => client_elsewhere other) ?_ ?_ ?_
    · intro t' act' other there
      rw [client_here]
      refine sound_later (sound_step step (known.sound k t' act' there) (by simp) ?_ (by simp)) _
      intro m mem same
      simp only [ClientAct.cancel.injEq] at same
      exact other (alone t' act' m there mem same.symm).1.symm
    · rw [client_here]
      refine sound_later (sound_step step rest (by simp) ?_ (by simp)) _
      intro m mem same
      simp only [ClientAct.cancel.injEq] at same
      exact Finset.ne_of_mem_erase mem
        (alone t _ m here (Finset.mem_of_mem_erase mem) same.symm).2.symm
    · intro t' inv h now
      rw [client_here] at now
      rcases (step_task step t').running inv h now with was | same
      · exact was
      · cases same

theorem activated_ret {inv : Invoke} {h : HandlerId} {result : Outcome} (known : Activated xs s)
    (one : SystemStep env debug s.system (.client k (.handled t inv h result)) v) :
    Activated (xs ++ [.client k (.handled t inv h result)])
      ((s.setSystem v).setActivation k t none) := by
  cases one with
  | @client _ _ c step =>
    refine activated_set known (fun j other => client_elsewhere other) ?_ (by simp) ?_ (by simp)
      (by simp)
    · intro t' act' other there
      rw [client_here]
      refine sound_later (sound_step step (known.sound k t' act' there) ?_ (by simp) (by simp)) _
      intro inv' h' result' same
      cases same
      exact other rfl
    · intro t' inv' h' now
      rw [client_here] at now
      refine Or.inr ⟨?_, ?_⟩
      · rintro rfl
        cases step with
        | handled => simp [Client.setTask] at now
      · rcases (step_task step t').running inv' h' now with was | same
        · exact was
        · cases same

theorem activated_step (step : NestedStep env debug programs cap s a s') (known : Activated xs s) :
    Activated (xs ++ a.ofSystem) s' := by
  cases step with
  | system one _ free => exact activated_system known one free
  | handle one => exact activated_handle known one _ _
  | invoke here one => exact activated_invoke known here one
  | @drop k t live n own next id v here one =>
    exact activated_dropped next known here own (by simp [Program.waits]) one
  | ret _ one => exact activated_ret known one
  | @resume k t live slots _ _ next id n result mem here ready polled =>
    have sound := known.sound k t _ here
    change Activated (xs ++ []) _
    rw [List.append_nil]
    have kept := @activated_erase s s.system xs [] k t live n _ id (next n mem result) known here
      (fun _ _ => rfl) ?_ ?_ (fun _ _ _ now => now)
    · rwa [List.append_nil] at kept
    · intro t' act' _ there
      exact sound_later (known.sound k t' act' there) _
    · exact sound_later (sound_erase sound _ (still_of_waits sound polled)) _
  | @release k t live n own next id result here ready =>
    have sound := known.sound k t _ here
    change Activated (xs ++ []) _
    rw [List.append_nil]
    have kept := @activated_erase s s.system xs [] k t live n _ id next known here
      (fun _ _ => rfl) ?_ ?_ (fun _ _ _ now => now)
    · rwa [List.append_nil] at kept
    · intro t' act' _ there
      exact sound_later (known.sound k t' act' there) _
    · exact sound_later (sound_erase sound _ (still_of_waits sound (by simp [Program.waits]))) _
  | _ =>
    change Activated (xs ++ []) _
    rw [List.append_nil]
    exact ⟨known.sound, known.covers, known.own⟩

/-- What a run of nested calls keeps of its handlers. -/
theorem handlers_sound (assembled : Assembled u) (run : NestedRun env debug programs cap u acts s) :
    Activated (systemActs acts) s := by
  refine run_history (p := fun acts s => Activated (systemActs acts) s) ?_ ?_ run
  · constructor
    · intro k t act now
      cases now
    · intro k t inv h now
      exact absurd now (assembled.tasks k t inv h)
    · intro k t t' act act' n n' now
      cases now
  · intro acts s a s' _ step known
    have next := activated_step step known
    rwa [systemActs, List.flatMap_append, List.flatMap_singleton]

end TokimoNested

import TokimoBus.ClientProgress
import TokimoBus.Wire

/-!
Who keeps a client's pending table alive. `run_connection` holds the client until it
returns and the writer task until it has ended, but so do the handler tasks, the app, and
every invoke that waits for a reply that can no longer come.
-/
namespace TokimoClient
open TokimoFrame TokimoOutbound TokimoBroker LabelledRuns WrappingCounter RequestTable
open TokimoWire (toVecNamed)
variable {encoder : Encoder} {debug : BusFrame → String} {c c' : Client} {a : ClientAct}
  {acts : List ClientAct} {hello : HelloRequest} {handlers : String → Option HandlerId}
  {i : InvokeId} {r : UInt64}

theorem finished_owned (h : ClientStep encoder debug c a c') (finished : c.runner = .finished) :
    c.Owned := by
  have caller : ∀ {i : InvokeId} {p : InvokePhase}, c.invokePhase i = p → p.active = true →
      c.Owned := by
    intro i p here active
    exact Or.inr (Or.inr (Or.inr (Or.inr ⟨i, by rw [here]; exact active⟩)))
  have task : ∀ {t : TaskId} {p : TaskPhase}, c.task t = p → p.active = true → c.Owned := by
    intro t p here active
    exact Or.inr (Or.inr (Or.inr (Or.inl ⟨t, by rw [here]; exact active⟩)))
  cases h with
  | greet here | greetBroken here | acked here | refused here | unread here | run here | ping here
  | pingClosed here | shutdownFrame here | invoke here | response here | ignore here | hangup here
  | stop here | finish here =>
    rw [finished] at here
    cases here
  | writer one =>
    refine Or.inr (Or.inl ⟨finished, ?_⟩)
    intro ended
    cases one <;> simp_all
  | handle here | unhandled here | handled here | reply here | replyClosed here =>
    exact task here rfl
  | number here | register here | send here | sendClosed here | complete here
  | senderGone here | cancelStart here | cancelAwait here =>
    exact caller here rfl
  | begin _ alive => exact alive
  | publish held | subscribe held | unsent held | shutdown held => exact held
  | release held => exact Or.inr (Or.inr (Or.inl held))

theorem step_finishes (h : ClientStep encoder debug c a c') (finished : c'.runner = .finished) :
    c.runner = .finished ∨ a = .finish ∧ c.runner = .aborting ∧ c'.pending = c.pending ∧
      (c'.Owned → (c.setRunner .finished).Owned) := by
  cases h with
  | finish here => exact Or.inr ⟨rfl, here, rfl, id⟩
  | greet | greetBroken | acked | refused | unread | run | hangup | stop => cases finished
  | _ => exact Or.inl finished

/-- The condition under which the end of a connection leaves nobody waiting. No invoke is
    listed when `run_connection` ends, unless nobody else holds the client, and no listed
    invoke queues its Invoke after that. -/
def Spared (c : Client) : ClientAct → Prop
  | .finish => (∀ r, c.pending r = none) ∨ ¬ (c.setRunner .finished).Owned
  | .send i _ => c.runner = .finished → ∀ r, c.pending r ≠ some i
  | _ => True

def Registered (acts : List ClientAct) (i : InvokeId) : Prop :=
  (∃ j f r, j < f ∧ At acts j (.register i r) ∧ At acts f .finish) ∨
    ∃ inv, .send i inv ∈ acts

theorem registered_snoc (expected : Registered (acts ++ [a]) i) :
    Registered acts i ∨ a = .finish ∨ ∃ inv, a = .send i inv := by
  have shorter : ∀ {n : Nat} {b : ClientAct}, (acts ++ [a])[n]? = some b →
      acts[n]? = some b ∨ n = acts.length ∧ a = b := by
    intro n b here
    rcases Nat.lt_trichotomy n acts.length with inside | last | outside
    · rw [List.getElem?_append_left inside] at here
      exact Or.inl here
    · subst last
      simp only [List.getElem?_concat_length, Option.some.injEq] at here
      exact Or.inr ⟨rfl, here⟩
    · rw [List.getElem?_eq_none (by simp; omega)] at here
      cases here
  rcases expected with ⟨j, f, r, order, first, second⟩ | ⟨inv, mem⟩
  · rcases shorter second with old | ⟨_, last⟩
    · rcases shorter first with older | ⟨place, _⟩
      · exact Or.inl (Or.inl ⟨j, f, r, order, older, old⟩)
      · have bound := (List.getElem?_eq_some_iff.mp old).1
        omega
    · exact Or.inr (Or.inl last)
  · rcases List.mem_append.mp mem with old | new
    · exact Or.inl (Or.inr ⟨inv, old⟩)
    · exact Or.inr (Or.inr ⟨inv, (List.mem_singleton.mp new).symm⟩)

theorem registered_rank (run : ClientRun encoder debug hello handlers acts c)
    (expected : Registered acts i) : 3 ≤ (c.invokePhase i).rank := by
  have later : ∀ {n : Nat} {b : ClientAct}, At acts n b →
      (∀ v w, ClientStep encoder debug v b w → 3 ≤ (w.invokePhase i).rank) →
      3 ≤ (c.invokePhase i).rank := by
    intro n b here reaches
    obtain ⟨v, w, before, one, after⟩ := run_at run here
    exact stable_run (p := fun v => 3 ≤ (v.invokePhase i).rank) (invoke_rank_stable i 3)
      (reachable_step ⟨_, before⟩ one) after (reaches v w one)
  rcases expected with ⟨j, f, r, _, here, _⟩ | ⟨inv, mem⟩
  · refine later here ?_
    intro v w one
    cases one with
    | register => simp [Client.setInvokePhase, InvokePhase.rank]
  · obtain ⟨j, here⟩ := List.mem_iff_getElem?.mp mem
    refine later here ?_
    intro v w one
    cases one with
    | send => simp [Client.setInvokePhase, InvokePhase.rank]

/-- After the end of the connection, none of these invokes is listed in a table that is
    still there. -/
def Settled (acts : List ClientAct) (c : Client) : Prop :=
  c.runner = .finished → ¬ c.Owned ∨ ∀ i r, Registered acts i → c.pending r ≠ some i

theorem settled_step (run : ClientRun encoder debug hello handlers acts c)
    (h : ClientStep encoder debug c a c') (spared : Spared c a) (settled : Settled acts c) :
    Settled (acts ++ [a]) c' := by
  intro finished'
  rcases step_finishes h finished' with finished | ⟨rfl, _, pending, owners⟩
  · rcases settled finished with gone | clear
    · exact absurd (finished_owned h finished) gone
    · refine Or.inr ?_
      intro i r expected listed'
      rcases step_listed h listed' with listed | rfl
      · rcases registered_snoc expected with before | rfl | ⟨inv, rfl⟩
        · exact clear i r before listed
        · cases h with
          | finish here =>
            rw [finished] at here
            cases here
        · exact spared finished r listed
      · rcases registered_snoc expected with before | same | ⟨inv, same⟩
        · have high := registered_rank run before
          cases h with
          | register here => simp [here, InvokePhase.rank] at high
        · cases same
        · cases same
  · rcases spared with empty | unheld
    · refine Or.inr ?_
      intro i r _ listed
      rw [pending, empty r] at listed
      cases listed
    · exact Or.inl fun owned => unheld (owners owned)

/-- Every invoke that had registered when `run_connection` finished, or has queued its Invoke,
    has had its reply sender used or dropped. -/
def NoInvokeOutlives (acts : List ClientAct) (c : Client) : Prop :=
  c.runner = .finished → ∀ i, Registered acts i →
    (∃ resp, .response resp (some i) ∈ acts) ∨ ¬ c.SenderAlive i

theorem no_invoke_outlives
    (run : Run (Guarded (ClientStep encoder debug) Spared) (Client.new hello handlers) acts c) :
    NoInvokeOutlives acts c := by
  have settled : Settled acts c := by
    refine run_history ?_ ?_ run
    · intro finished
      cases finished
    · intro acts c a c' before step ih
      exact settled_step (guarded_run before) step.1 step.2 ih
  intro finished i expected
  refine Or.inr ?_
  rintro ⟨⟨r, listed⟩, owned⟩
  rcases settled finished with gone | clear
  · exact gone owned
  · exact clear i r expected listed

/-- A step that the condition excludes leaves an invoke waiting that nothing will wake. -/
theorem unspared_outlives (run : ClientRun encoder debug hello handlers acts c)
    (h : ClientStep encoder debug c a c') (left : ¬ Spared c a) :
    ¬ NoInvokeOutlives (acts ++ [a]) c' := by
  intro claim
  have stuck : ∀ {i : InvokeId} {r : UInt64}, c'.pending r = some i → c'.runner = .finished →
      c'.Owned → Registered (acts ++ [a]) i → False := by
    intro i r listed finished owned expected
    rcases claim finished i expected with ⟨resp, mem⟩ | dropped
    · have unlisted := woken_unlisted (invokes encoder debug hello handlers) (run.snoc h) mem
        (k := ()) (p := resp) (c := i) rfl
      exact unlisted.2 () r listed
    · exact dropped ⟨⟨r, listed⟩, owned⟩
  cases h with
  | finish here =>
    simp only [Spared, not_or, not_forall, not_not] at left
    obtain ⟨⟨r, listed⟩, owned⟩ := left
    obtain ⟨i, listed⟩ := Option.ne_none_iff_exists'.mp listed
    have mem : ClientAct.register i r ∈ acts :=
      label_of_gained (p := fun c => c.pending r = some i) (by simp [Client.new])
        (fun _ _ _ step now => step_listed step now) run listed
    obtain ⟨j, first⟩ := List.mem_iff_getElem?.mp mem
    have bound := (List.getElem?_eq_some_iff.mp first).1
    have earlier : At (acts ++ [ClientAct.finish]) j (.register i r) :=
      (List.getElem?_append_left bound).trans first
    exact stuck listed rfl owned
      (Or.inl ⟨j, acts.length, r, bound, earlier, List.getElem?_concat_length⟩)
  | @send i r here alive =>
    simp only [Spared, Classical.not_imp, not_forall, not_not] at left
    obtain ⟨finished, q, listed⟩ := left
    refine stuck listed finished ?_ (Or.inr ⟨(c.args i).frame r, by simp⟩)
    exact Or.inr (Or.inr (Or.inr (Or.inr ⟨i, by simp [Client.setInvokePhase, InvokePhase.active]⟩)))
  | _ => exact left trivial

def musicHello : HelloRequest :=
  ⟨ProtocolVersion.current, "music", "0.1.0", 8, "token", [], [], none⟩

def playInvoke : InvokeArgs := ⟨"video", "play", [], CallerCtx.default⟩

def noHandlers : String → Option HandlerId := fun _ => none

def quiet : BusFrame → String := fun _ => ""

/-- The broker closes the connection while an invoke waits for its Response. -/
def strandedActs : List ClientAct :=
  joinActs musicHello ⟨1, Duration.fromSecs 15⟩ ++ queueActs 0 playInvoke 1 ++ endActs ++
    [ClientAct.finish]

theorem music_joins : ClientRun toVecNamed quiet musicHello noHandlers
    (joinActs musicHello ⟨1, Duration.fromSecs 15⟩) (Client.joined musicHello noHandlers) :=
  client_joins ⟨1, Duration.fromSecs 15⟩ (by decide +kernel)

theorem stranded_run : ∃ c, ClientRun toVecNamed quiet musicHello noHandlers strandedActs c ∧
    c.runner = .finished ∧ c.SenderAlive 0 := by
  have queued : Run (ClientStep toVecNamed quiet) (Client.joined musicHello noHandlers)
      (queueActs 0 playInvoke 1) _ := invoke_queues rfl (Or.inl rfl) (by decide)
  have run := run_append (run_append music_joins queued) (connection_ends rfl)
  refine ⟨_, run.snoc (ClientStep.finish rfl), rfl, ⟨1, rfl⟩, ?_⟩
  exact Or.inr (Or.inr (Or.inr (Or.inr ⟨0, rfl⟩)))

theorem stranded_invoke_outlives :
    ¬ ∀ acts c, ClientRun toVecNamed quiet musicHello noHandlers acts c →
      NoInvokeOutlives acts c := by
  intro claim
  obtain ⟨c, run, finished, alive⟩ := stranded_run
  rcases claim _ c run finished 0 (Or.inr ⟨playInvoke.frame 1, by simp [strandedActs, queueActs]⟩)
    with ⟨resp, mem⟩ | dropped
  · simp [strandedActs, joinActs, queueActs, registerActs, endActs] at mem
  · exact dropped alive

def answeredActs : List ClientAct :=
  joinActs musicHello ⟨1, Duration.fromSecs 15⟩ ++ registerActs 0 playInvoke 1 ++
    [ClientAct.send 0 (playInvoke.frame 1)] ++
    ([ClientAct.response ⟨1, .ok []⟩ (some 0), .complete 0 ⟨1, .ok []⟩] ++ endActs) ++
    [ClientAct.finish]

theorem answered_run : ∃ c, Run (Guarded (ClientStep toVecNamed quiet) Spared)
    (Client.new musicHello noHandlers) answeredActs c ∧ c.runner = .finished := by
  have listing : Run (ClientStep toVecNamed quiet) (Client.joined musicHello noHandlers)
      (registerActs 0 playInvoke 1) _ := invoke_registers rfl (Or.inl rfl)
  have start := run_guarded (g := Spared) (run_append music_joins listing)
    (by simp [joinActs, registerActs, Spared])
  have sent : Guarded (ClientStep toVecNamed quiet) Spared
      ((Client.joined musicHello noHandlers).listing 0 playInvoke) (.send 0 (playInvoke.frame 1))
      ((Client.joined musicHello noHandlers).queued 0 playInvoke) := by
    refine ⟨send_queues (by decide), ?_⟩
    intro finished
    cases finished
  have answer := @response_completes toVecNamed quiet
    ((Client.joined musicHello noHandlers).queued 0 playInvoke) 0 ⟨1, .ok []⟩ rfl rfl rfl
  have rest := run_guarded (g := Spared) (run_append answer (connection_ends rfl))
    (by simp [endActs, Spared])
  have before := run_append (start.snoc sent) rest
  refine ⟨_, before.snoc ⟨ClientStep.finish rfl, Or.inl ?_⟩, rfl⟩
  intro r
  by_cases first : r = 1
  · subst first
    rfl
  · have other : (Function.update (Function.update (fun _ => none) (1 : UInt64) (some 0)) 1 none) r
        = (none : Option InvokeId) := by simp
    exact other

theorem answered_invoke_spared : ∃ c, c.runner = .finished ∧ NoInvokeOutlives answeredActs c := by
  obtain ⟨c, run, finished⟩ := answered_run
  exact ⟨c, finished, no_invoke_outlives run⟩

end TokimoClient

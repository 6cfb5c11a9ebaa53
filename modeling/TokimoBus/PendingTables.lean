import TokimoBus.Teardown
import TokimoBus.ClientTeardown

/-!
What stays behind in the pending tables. A call lists itself before it queues its Invoke, and
leaves by the reply, by its timeout, by a closed channel, or because nobody polls it any more.
The first two take its entry out of the table and the last two do not, on both sides.
-/
namespace TokimoPending
open TokimoFrame TokimoOutbound TokimoBroker LabelledRuns WrappingCounter RequestTable

section broker
open TokimoSession TokimoCalls TokimoIdentity TokimoCorrelation TokimoTeardown TokimoProgress
open TokimoWire (standardEnv)
variable {env : Env} {w w' : World} {a : Act} {acts : List Act} {c : CallId} {k : ConnId}
  {r : UInt64}

def listens : CallPhase → Bool
  | .send _ _ _ | .await _ _ | .expire _ _ => true
  | _ => false

/-- The tables of the sessions that run hold no call that has ended. -/
def Clean (w : World) : Prop :=
  ∀ k r c, (w.phase k).holdsTable = true → w.pendingOut k r = some c →
    listens (w.callPhase c) = true

/-- A call that ends without its frame having been queued, or without being polled again, is in
    no table of a session that runs. -/
def Tidy (w : World) : Act → Prop
  | .sendClosed c | .cancel c =>
    ∀ k r, (w.phase k).holdsTable = true → w.pendingOut k r ≠ some c
  | _ => True

theorem listed_attached (run : BrokerRun env acts w) (listed : w.pendingOut k r = some c) :
    8 ≤ (w.phase k).rank := by
  obtain ⟨b, mem, number⟩ := slot_numbered (calls env) run listed
  obtain rfl := numbers_eq number
  obtain ⟨i, here⟩ := List.mem_iff_getElem?.mp mem
  obtain ⟨v, v', before, step, after⟩ := run_at run here
  refine stable_run (p := fun v => 8 ≤ (v.phase k).rank) (phase_rank_stable k 8) ⟨_, before⟩
    (run_cons step after) ?_
  cases step with
  | number phase => exact (held ⟨_, before⟩).handle c k (by rw [phase]; rfl)

theorem holds_back (run : BrokerRun env acts w) (step : Step env w a w')
    (listed : w.pendingOut k r = some c) (holds : (w'.phase k).holdsTable = true) :
    (w.phase k).holdsTable = true := by
  have attached := listed_attached run listed
  have early := holdsTable_rank holds
  have order := (step_phase step k).1
  cases here : w.phase k with
  | live s stage =>
    cases stage with
    | done =>
      have last : (w.phase k).rank = 15 := by rw [here]; rfl
      omega
    | _ => rfl
  | _ =>
    rw [here] at attached
    simp [Phase.rank] at attached

/-- A call stays listed as long as it is under way, and what ends it takes it out of the table,
    but for the two exits that `Tidy` is about. -/
theorem listens_step (run : BrokerRun env acts w) (step : Step env w a w') (tidy : Tidy w a)
    (holds : (w.phase k).holdsTable = true) (listed : w.pendingOut k r = some c)
    (still : w'.pendingOut k r = some c) (waits : listens (w.callPhase c) = true) :
    listens (w'.callPhase c) = true := by
  have moved : ∀ {d : CallId} {p q : CallPhase}, w.callPhase d = q →
      (c = d → listens q = true → listens p = true) →
      listens (Function.update w.callPhase d p c) = true := by
    intro d p q here kept
    exact moved_at (P := fun p => listens p = true) here kept waits
  cases step with
  | send here | elapse here => exact moved here fun _ _ => rfl
  | register here => exact moved here fun _ _ => rfl
  | sendClosed here => exact moved here fun eq _ => absurd (eq ▸ listed) (tidy k r holds)
  | cancelAwait _ here | cancelStart _ here | cancelLocal _ here =>
    exact moved here fun eq _ => absurd (eq ▸ listed) (tidy k r holds)
  | complete here value =>
    refine moved here fun eq _ => ?_
    subst eq
    exact absurd listed ((replied_unlisted (calls env) run value).2 k r)
  | senderGone here empty gone =>
    refine moved here fun eq _ => ?_
    subst eq
    exact absurd ⟨k, r, listed, Or.inl holds⟩ gone
  | @expire d k' r' here =>
    refine moved here fun eq _ => ?_
    subst eq
    have ticket := ticket_numbered (calls env) run (c := c) (k := k') (r := r') (by
      change ticket (w.callPhase c) = _
      rw [here]
      rfl)
    obtain ⟨rfl, rfl⟩ := number_once (calls env) run (slot_numbered (calls env) run listed) ticket
    simp [World.setCallPhase, World.setPending] at still
  | probe _ here | spawn _ here | call here | localHit here | localMiss here | localAdmit here
  | localRefuse here | localReturn here | localTimeout here | lookupNone here | permit here
  | refuse here | routeNone here | route here | number here | answer _ here
  | answerClosed _ here | probeFail _ here | cache _ here | probeCheck _ here =>
    exact moved here fun _ was => by cases was
  | _ => exact waits

theorem listed_listens (step : Step env w a w') (new : a = .register c k r) :
    listens (w'.callPhase c) = true := by
  subst new
  cases step with
  | register here => simp [World.setCallPhase, listens]

theorem clean_step (run : BrokerRun env acts w) (clean : Clean w) (step : Step env w a w') :
    Clean w' ↔ Tidy w a := by
  constructor
  · intro after
    have left : ∀ {d : CallId} {p : CallPhase}, listens p = false → w'.phase = w.phase →
        w'.pendingOut = w.pendingOut → w'.callPhase = Function.update w.callPhase d p →
        ∀ k r, (w.phase k).holdsTable = true → w.pendingOut k r ≠ some d := by
      intro d p ended phases tables calls k r holds listed
      have waits := after k r d (by rwa [phases]) (by rwa [tables])
      rw [calls, Function.update_self, ended] at waits
      cases waits
    cases step with
    | sendClosed | cancelStart | cancelLocal | cancelAwait => exact left rfl rfl rfl rfl
    | _ => trivial
  · intro tidy k r c holds listed
    rcases step_pending step listed with old | new
    · have before := holds_back run step old holds
      exact listens_step run step tidy before old listed (clean k r c before old)
    · exact listed_listens step new

theorem broker_clean_iff : Run (Through (Step env) Clean) World.init acts w ↔
    Run (Guarded (Step env) Tidy) World.init acts w := by
  apply through_iff_guarded
  · intro k r c holds
    cases holds
  · rintro v a v' ⟨before, run⟩ clean step
    exact clean_step run clean step

end broker

section client
open TokimoClient
variable {encoder : Encoder} {debug : BusFrame → String} {hello : HelloRequest}
  {handlers : String → Option HandlerId} {c c' : Client} {a : ClientAct} {acts : List ClientAct}
  {i : InvokeId} {r : UInt64} {p : InvokePhase}

def awaits : InvokePhase → Bool
  | .send _ | .await _ => true
  | _ => false

def ClientClean (c : Client) : Prop :=
  c.Owned → ∀ r i, c.pending r = some i → awaits (c.invokePhase i) = true

def HeldByOthers (c : Client) (i : InvokeId) : Prop := (c.setInvokePhase i .cancelled).Owned

/-- An invoke that ends without its frame having been queued, or without being polled again, is
    not in the table of a client that outlives it. -/
def ClientTidy (c : Client) : ClientAct → Prop
  | .sendClosed i | .cancel i => HeldByOthers c i → ∀ r, c.pending r ≠ some i
  | _ => True

theorem invoke_owns (here : c.invokePhase i = p) (active : p.active = true) : c.Owned := by
  refine Or.inr (Or.inr (Or.inr (Or.inr ⟨i, ?_⟩)))
  rw [here]
  exact active

theorem task_owns {t : TaskId} {p : TaskPhase} (here : c.task t = p) (active : p.active = true) :
    c.Owned := by
  refine Or.inr (Or.inr (Or.inr (Or.inl ⟨t, ?_⟩)))
  rw [here]
  exact active

theorem step_owned (step : ClientStep encoder debug c a c') (owned : c'.Owned) :
    c.Owned ∨ ∃ x, a = .acked x := by
  cases step with
  | @acked x => exact Or.inr ⟨x, rfl⟩
  | greet | greetBroken | refused | unread =>
    rcases owned with holds | ⟨done, _⟩ | rest
    · cases holds
    · cases done
    · exact Or.inl (Or.inr (Or.inr rest))
  | run here | ping here | pingClosed here | shutdownFrame here | invoke here | response here
  | ignore here | hangup here | stop here | finish here =>
    refine Or.inl (Or.inl ?_)
    rw [here]
    rfl
  | writer one =>
    rcases owned with holds | ⟨done, _⟩ | rest
    · exact Or.inl (Or.inl holds)
    · refine Or.inl (Or.inr (Or.inl ⟨done, ?_⟩))
      intro ended
      cases one <;> simp_all
    · exact Or.inl (Or.inr (Or.inr rest))
  | handle here | unhandled here | handled here | reply here | replyClosed here =>
    exact Or.inl (task_owns here rfl)
  | number here | register here | send here | sendClosed here | complete here | senderGone here
  | cancelStart here | cancelAwait here =>
    exact Or.inl (invoke_owns here rfl)
  | begin _ alive => exact Or.inl alive
  | publish held | subscribe held | unsent held | shutdown held => exact Or.inl held
  | release held => exact Or.inl (Or.inr (Or.inr (Or.inl held)))

theorem owned_rank (run : ClientRun encoder debug hello handlers acts c) (owned : c.Owned) :
    2 ≤ c.runner.rank := by
  revert owned
  refine run_history (p := fun _ c => c.Owned → 2 ≤ c.runner.rank) ?_ ?_ run
  · rintro (holds | ⟨done, _⟩ | holds | ⟨t, holds⟩ | ⟨i, holds⟩)
    · cases holds
    · cases done
    · cases holds
    · cases holds
    · cases holds
  · intro acts c a c' _ step known owned
    have order := step_runner_rank step
    rcases step_owned step owned with before | ⟨x, rfl⟩
    · have := known before
      omega
    · cases step with
      | acked => exact Nat.le_refl _

theorem listed_rank (run : ClientRun encoder debug hello handlers acts c)
    (listed : c.pending r = some i) : 2 ≤ c.runner.rank := by
  have mem := label_of_gained (p := fun c => c.pending r = some i) (by simp [Client.new])
    (fun _ _ _ step now => step_listed step now) run listed
  obtain ⟨n, here⟩ := List.mem_iff_getElem?.mp mem
  obtain ⟨v, v', before, step, after⟩ := run_at run here
  refine stable_run (p := fun v => 2 ≤ v.runner.rank) ?_ ⟨_, before⟩ (run_cons step after) ?_
  · intro u b u' _ step now
    exact Nat.le_trans now (step_runner_rank step)
  · cases step with
    | register phase => exact owned_rank before (invoke_owns phase rfl)

theorem owned_back (run : ClientRun encoder debug hello handlers acts c)
    (step : ClientStep encoder debug c a c') (listed : c.pending r = some i)
    (owned : c'.Owned) : c.Owned := by
  rcases step_owned step owned with before | ⟨x, rfl⟩
  · exact before
  · have joined := listed_rank run listed
    cases step with
    | acked here =>
      rw [here] at joined
      simp [Runner.rank] at joined

theorem ended_owned (ended : p.active = false) :
    (c.setInvokePhase i p).Owned ↔ HeldByOthers c i := by
  have same : ∀ j, (Function.update c.invokePhase i p j).active =
      (Function.update c.invokePhase i .cancelled j).active := by
    intro j
    by_cases eq : j = i
    · subst eq
      rw [Function.update_self, Function.update_self, ended]
      rfl
    · simp [eq]
  simp only [HeldByOthers, Client.Owned, Client.setInvokePhase, same]

theorem awaits_step (run : ClientRun encoder debug hello handlers acts c)
    (step : ClientStep encoder debug c a c') (tidy : ClientTidy c a) (owned : c.Owned)
    (owned' : c'.Owned) (listed : c.pending r = some i) (waits : awaits (c.invokePhase i) = true) :
    awaits (c'.invokePhase i) = true := by
  have moved : ∀ {j : InvokeId} {p q : InvokePhase}, c.invokePhase j = q →
      (i = j → awaits q = true → awaits p = true) →
      awaits (Function.update c.invokePhase j p i) = true := by
    intro j p q here kept
    exact moved_at (P := fun p => awaits p = true) here kept waits
  cases step with
  | send here | register here => exact moved here fun _ _ => rfl
  | sendClosed here | cancelStart here | cancelAwait here =>
    refine moved here fun eq _ => ?_
    subst eq
    exact absurd listed (tidy ((ended_owned rfl).mp owned') r)
  | complete here value =>
    refine moved here fun eq _ => ?_
    subst eq
    exact absurd listed ((replied_unlisted (invokes encoder debug hello handlers) run value).2 () r)
  | senderGone here empty gone =>
    refine moved here fun eq _ => ?_
    subst eq
    exact absurd ⟨⟨r, listed⟩, owned⟩ gone
  | begin here | number here => exact moved here fun _ was => by cases was
  | _ => exact waits

theorem client_step (run : ClientRun encoder debug hello handlers acts c) (clean : ClientClean c)
    (step : ClientStep encoder debug c a c') : ClientClean c' ↔ ClientTidy c a := by
  constructor
  · intro after
    have left : ∀ {j : InvokeId} {p : InvokePhase}, p.active = false → awaits p = false →
        ClientClean (c.setInvokePhase j p) → HeldByOthers c j → ∀ r, c.pending r ≠ some j := by
      intro j p ended stopped after others r listed
      have waits := after ((ended_owned ended).mpr others) r j listed
      simp only [Client.setInvokePhase, Function.update_self] at waits
      rw [stopped] at waits
      cases waits
    cases step with
    | sendClosed | cancelStart | cancelAwait => exact left rfl rfl after
    | _ => trivial
  · intro tidy owned' r i listed'
    rcases step_listed step listed' with listed | new
    · have owned := owned_back run step listed owned'
      exact awaits_step run step tidy owned owned' listed (clean owned r i listed)
    · subst new
      cases step with
      | register => simp [Client.setInvokePhase, awaits]

theorem client_clean_iff :
    Run (Through (ClientStep encoder debug) ClientClean) (Client.new hello handlers) acts c ↔
      Run (Guarded (ClientStep encoder debug) ClientTidy) (Client.new hello handlers) acts c := by
  apply through_iff_guarded
  · intro _ r i listed
    cases listed
  · rintro v a v' ⟨before, run⟩ clean step
    exact client_step run clean step

def lateActs : List ClientAct :=
  joinActs musicHello ⟨1, Duration.fromSecs 15⟩ ++ endActs ++
    [ClientAct.finish, .writer (.cancelled [])] ++ registerActs 0 playInvoke 1 ++ [ClientAct.sendClosed 0]

theorem late_run : ∃ c, ClientRun TokimoWire.toVecNamed quiet musicHello noHandlers lateActs c ∧
    c.Owned ∧ c.pending 1 = some 0 ∧ c.invokePhase 0 = .done (.error .connectionClosed) := by
  have run := (run_append music_joins (connection_ends rfl)).snoc (ClientStep.finish rfl)
  have run := run.snoc (ClientStep.writer (WriterStep.cancelledIdle rfl rfl))
  have owned : Client.Owned ((Client.joined musicHello noHandlers).ending.setOut
      (Client.joined musicHello noHandlers).out.abort.stop |>.setRunner .finished) :=
    Or.inr (Or.inr (Or.inl rfl))
  have run := run_append run (invoke_registers (i := 0) (x := playInvoke) rfl owned)
  exact ⟨_, run.snoc (ClientStep.sendClosed rfl (by decide)), Or.inr (Or.inr (Or.inl rfl)), rfl, rfl⟩

end client

section both
open TokimoSession TokimoClient

/-- In which runs of a broker, and of a client, the pending tables hold only waiting calls. -/
theorem tables_clean_iff (env : Env) (steps : List Act) (w : World) (encoder : Encoder)
    (debug : BusFrame → String) (hello : HelloRequest) (handlers : String → Option HandlerId)
    (acts : List ClientAct) (c : Client) :
    (Run (Through (Step env) Clean) World.init steps w ↔
      Run (Guarded (Step env) Tidy) World.init steps w) ∧
    (Run (Through (ClientStep encoder debug) ClientClean) (Client.new hello handlers) acts c ↔
      Run (Guarded (ClientStep encoder debug) ClientTidy) (Client.new hello handlers) acts c) :=
  ⟨broker_clean_iff, client_clean_iff⟩

theorem refused_call_stays :
    ¬ ((∀ steps w, BrokerRun TokimoWire.standardEnv steps w → Clean w) ∧
      ∀ acts c, ClientRun TokimoWire.toVecNamed quiet musicHello noHandlers acts c →
        ClientClean c) := by
  intro claim
  obtain ⟨c, run, owned, listed, ended⟩ := late_run
  have waits := claim.2 _ c run owned 1 0 listed
  rw [ended] at waits
  cases waits

end both
end TokimoPending

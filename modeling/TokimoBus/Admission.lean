import TokimoBus.Progress
import TokimoBus.SlotLedger
import TokimoBus.WrappingCounter

/-!
Who is let in. The spawn-token table is a slot ledger: `issue_token` fills the slot
of a service, and every token check empties it, whether the check succeeds or not.
So admissions are accounted for one by one, and a rejected check costs the service
the token it was issued.
-/
namespace TokimoAdmission
open TokimoFrame TokimoOutbound TokimoBroker TokimoSession TokimoWire
open TokimoCalls TokimoProgress PaddedHex LabelledRuns SlotLedger WrappingCounter
variable {env : Env} {w w' : World} {a : Act} {acts : List Act}

def tokenTouch : Act → Option (String × Option String)
  | .issue _ service token => some (service, some token)
  | .consume _ h _ => some (h.service, none)
  | _ => none

def mintTouch : Act → Option (Nat × Option (String × String))
  | .mint n service _ _ token => some (n, some (service, token))
  | .issue n _ _ => some (n, none)
  | _ => none

def mintTakes : Act → Option UInt64
  | .mint _ _ _ ctr _ => some ctr
  | _ => none

theorem consume_accepts {b : Broker} {service token : String} :
    (b.consumeToken service token).1 = true ↔ b.tokens service = some token := by
  unfold Broker.consumeToken
  cases b.tokens service <;> simp

theorem token_ledger : Ledger (Step env) (fun w => w.broker.tokens) tokenTouch :=
  ledger_of fun step => by cases step <;> rfl

theorem mint_ledger : Ledger (Step env) (fun w => w.minted) mintTouch :=
  ledger_of fun step => by cases step <;> rfl

theorem mint_counts : Counts (Step env) (fun w => w.broker.counter) mintTakes 0 where
  take := by
    intro w a w' v h takes
    cases h with
    | mint =>
      simp only [mintTakes, Option.some.injEq] at takes
      subst takes
      exact ⟨by simp, rfl⟩
    | _ => simp [mintTakes] at takes
  keep := by
    intro w a w' h takes
    cases h with
    | mint => simp [mintTakes] at takes
    | _ => rfl

/-- The three numbers have a width each, whatever they are, so the text tells them apart. -/
theorem tokenText_injective {ns ns' : UInt64} {pid pid' : UInt32} {ctr ctr' : UInt64}
    (same : tokenText ns pid ctr = tokenText ns' pid' ctr') :
    ns = ns' ∧ pid = pid' ∧ ctr = ctr' := by
  have wide : ∀ v : UInt64, (hexPadded 16 v.toNat).toList.length = 16 := by
    intro v
    exact hexPadded_length (by decide) v.toNat_lt
  have narrow : ∀ v : UInt32, (hexPadded 8 v.toNat).toList.length = 8 := by
    intro v
    exact hexPadded_length (by decide) v.toNat_lt
  have texts := congrArg String.toList same
  simp only [tokenText, String.toList_append] at texts
  obtain ⟨heads, last⟩ := List.append_inj' texts (by rw [wide, wide])
  obtain ⟨first, middle⟩ := List.append_inj' heads (by rw [narrow, narrow])
  refine ⟨?_, ?_, ?_⟩
  · exact UInt64.toNat_inj.mp (hexPadded_injective (String.toList_inj.mp first))
  · exact UInt32.toNat_inj.mp (hexPadded_injective (String.toList_inj.mp middle))
  · exact UInt64.toNat_inj.mp (hexPadded_injective (String.toList_inj.mp last))

theorem mint_text (h : Step env w a w') {n : Nat} {service token : String} {ns ctr : UInt64}
    (mint : a = .mint n service ns ctr token) : token = tokenText ns env.pid ctr := by
  subst mint
  cases h with
  | mint _ text => exact text

/-- An `issue_token(service)` call, by the position at which it stored its token. -/
def IssueCall (acts : List Act) (j : Nat) (service token : String) : Prop :=
  ∃ n l ns ctr, l < j ∧ acts[l]? = some (.mint n service ns ctr token) ∧
    acts[j]? = some (.issue n service token)

theorem issue_from_mint (run : BrokerRun env acts w) {j n : Nat} {service token : String}
    (here : acts[j]? = some (.issue n service token)) :
    ∃ l, FilledBy mintTouch acts n (service, token) j l := by
  refine found_from_latest mint_ledger run rfl here ?_
  intro x y _ one
  cases one with
  | issue ready => exact ready

theorem filled_by_mint {n j l : Nat} {service token : String}
    (filled : FilledBy mintTouch acts n (service, token) j l) :
    ∃ ns ctr, acts[l]? = some (.mint n service ns ctr token) := by
  obtain ⟨_, ⟨b, there, written⟩, _⟩ := filled
  cases b with
  | mint n' s ns ctr t =>
    simp only [mintTouch, Option.some.injEq, Prod.mk.injEq] at written
    obtain ⟨rfl, rfl, rfl⟩ := written
    exact ⟨ns, ctr, there⟩
  | _ => simp [mintTouch] at written

/-- The admission at `i` used up the `issue_token` call at `j`: the latest one for the service,
    not used by any other token check since. -/
def Spends (acts : List Act) (i : Nat) (h : HelloRequest) (j : Nat) : Prop :=
  IssueCall acts j h.service h.authToken ∧ FilledBy tokenTouch acts h.service h.authToken i j

theorem admission_spends (run : BrokerRun env acts w) {i : Nat} {k : ConnId} {h : HelloRequest}
    (here : acts[i]? = some (.consume k h true)) : ∃ j, Spends acts i h j := by
  have found : ∀ x y, BrokerReachable env x → Step env x (.consume k h true) y →
      x.broker.tokens h.service = some h.authToken := by
    intro x y _ one
    cases one with
    | consume _ verdict => exact consume_accepts.mp verdict.symm
  obtain ⟨j, filled⟩ := found_from_latest token_ledger run rfl here found
  refine ⟨j, ?_, filled⟩
  obtain ⟨_, ⟨b, there, written⟩, _⟩ := filled
  cases b with
  | issue n s t =>
    simp only [tokenTouch, Option.some.injEq, Prod.mk.injEq] at written
    obtain ⟨rfl, rfl⟩ := written
    obtain ⟨l, minted⟩ := issue_from_mint run there
    obtain ⟨ns, ctr, mint⟩ := filled_by_mint minted
    exact ⟨n, l, ns, ctr, minted.1, mint, there⟩
  | _ => simp [tokenTouch] at written

theorem spends_distinct {i i' j : Nat} {k k' : ConnId} {h h' : HelloRequest}
    (here : acts[i]? = some (.consume k h true)) (there : acts[i']? = some (.consume k' h' true))
    (first : Spends acts i h j) (second : Spends acts i' h' j) : i = i' :=
  fillings_distinct first.2 second.2 here rfl there rfl

def admits (service : String) : Act → Bool
  | .consume _ h ok => ok && h.service == service
  | _ => false

def issues (service : String) : Act → Bool
  | .issue _ s _ => s == service
  | _ => false

theorem admissions_le_issued (run : BrokerRun env acts w) (service : String) :
    acts.countP (admits service) ≤ acts.countP (issues service) := by
  have bound := used_le_filled (k := service) token_ledger run (admits service)
    (issues service) rfl ?_ ?_
  · omega
  · intro x a y one use
    cases one with
    | consume here verdict =>
      simp only [admits, Bool.and_eq_true, beq_iff_eq] at use
      obtain ⟨rfl, rfl⟩ := use
      have found := consume_accepts.mp verdict.symm
      exact ⟨rfl, by rw [found]; simp⟩
    | _ => simp [admits] at use
  · intro a
    cases a <;> simp [issues, tokenTouch]

/-- While fewer than 2^64 tokens have been generated, the text of a token names the
    `issue_token` call that returned it. -/
theorem issue_unique (run : BrokerRun env acts w) (few : taken mintTakes acts < 2 ^ 64)
    {j j' : Nat} {service service' token : String} (first : IssueCall acts j service token)
    (second : IssueCall acts j' service' token) : j = j' := by
  obtain ⟨n, _, _, _, _, _, stored⟩ := first
  obtain ⟨n', _, _, _, _, _, stored'⟩ := second
  obtain ⟨l, filled⟩ := issue_from_mint run stored
  obtain ⟨l', filled'⟩ := issue_from_mint run stored'
  obtain ⟨ns, ctr, mint⟩ := filled_by_mint filled
  obtain ⟨ns', ctr', mint'⟩ := filled_by_mint filled'
  obtain ⟨x, y, _, one, _⟩ := run_at run mint
  obtain ⟨x', y', _, one', _⟩ := run_at run mint'
  have same := (mint_text one rfl).symm.trans (mint_text one' rfl)
  have equal : ctr' = ctr := (tokenText_injective same).2.2.symm
  subst equal
  have places := taken_once mint_counts run (Nat.le_of_lt few) mint rfl mint' rfl
  subst places
  exact fillings_distinct filled filled' stored rfl stored' rfl

/-- The connection on whose behalf a step registers, attaches, changes a subscription, fans
    out, routes an Invoke or answers a pending call. -/
def servedFor : Act → Option ConnId
  | .generate k _ | .publish k _ | .attach k | .probe k _ | .subscribe k _ | .unsubscribe k _
  | .fanout k _ _ | .target k _ _ | .deliver k _ _ | .spawn k _ _ | .response k _ _ => some k
  | _ => none

def accepted : Phase → Option HelloRequest
  | .admitted h => some h
  | .numbered h _ => some h
  | .live s _ => some s.hello
  | _ => none

theorem step_accepts (step : Step env w a w') {k : ConnId} {h : HelloRequest}
    (now : accepted (w'.phase k) = some h) :
    accepted (w.phase k) = some h ∨ a = .consume k h true := by
  cases step with
  | @consume j hello ok here verdict =>
    cases ok with
    | true =>
      by_cases eq : k = j
      · subst eq
        simp only [World.setPhase, Function.update_self, ↓reduceIte, accepted,
          Option.some.injEq] at now
        exact Or.inr (by rw [now])
      · refine Or.inl ?_
        simpa [World.setPhase, World.withBroker, eq] using now
    | false => exact Or.inl (moved_from here (by simp [accepted]) now)
  | hello here =>
    refine Or.inl (moved_from here ?_ now)
    unfold helloPhase
    split <;> simp [accepted]
  | @generate j hello id s here named =>
    exact Or.inl (moved_from here (by simp [accepted, named]) now)
  | accept here | noHello here | reject here | rejectBroken here | clientId here
  | publish here | ack here | ackBroken here | rollback here | attach here
  | probe here | fanout here | target here | deliver here | undelivered here | fanned here
  | hangup here | detach here | check here | forget here | removeIf here | abort here =>
    exact Or.inl (moved_from here (by simp [accepted]) now)
  | _ => exact Or.inl now

theorem accepted_history (run : BrokerRun env acts w) {k : ConnId} {h : HelloRequest}
    (now : accepted (w.phase k) = some h) : Act.consume k h true ∈ acts :=
  label_of_gained (p := fun w => accepted (w.phase k) = some h)
    (by simp [World.init, accepted])
    (fun _ _ _ step now => step_accepts step now) run now

theorem served_phase (step : Step env w a w') {k : ConnId} (served : servedFor a = some k) :
    ∃ h, accepted (w.phase k) = some h ∧ ∀ s, a = .generate k s → s.hello = h := by
  cases step with
  | @generate j hello id s here named =>
    simp only [servedFor, Option.some.injEq] at served
    subst served
    refine ⟨hello, by rw [here]; rfl, ?_⟩
    intro s' eq
    cases eq
    rw [named]
  | publish here | attach here | probe here | subscribe here | unsubscribe here
  | fanout here | target here | deliver here | spawn here | response here =>
    simp only [servedFor, Option.some.injEq] at served
    subst served
    exact ⟨_, by rw [here]; rfl, by simp⟩
  | _ => simp [servedFor] at served

theorem served_after_accept (run : BrokerRun env acts w) {i : Nat} {k : ConnId}
    (here : acts[i]? = some a) (served : servedFor a = some k) :
    ∃ j h, j < i ∧ acts[j]? = some (.consume k h true) ∧
      ∀ s, a = .generate k s → s.hello = h := by
  obtain ⟨x, y, before, one, _⟩ := run_at run here
  obtain ⟨h, now, named⟩ := served_phase one served
  obtain ⟨j, order, there⟩ := mem_take_index (accepted_history before now)
  exact ⟨j, h, order, there, named⟩

def routes : Act → Option CallId
  | .send c _ _ => some c
  | .localAdmit c _ _ => some c
  | _ => none

theorem routed_after_accept (run : BrokerRun env acts w) {i : Nat} {c : CallId} {k : ConnId}
    {inv : Invoke} (here : acts[i]? = some a) (routed : routes a = some c)
    (app : (w.call c).origin = .app k inv) :
    ∃ j h, j < i ∧ acts[j]? = some (.consume k h true) := by
  obtain ⟨x, y, before, one, after⟩ := run_at run here
  have begun : x.callPhase c ≠ .unused := by
    cases one with
    | send now | localAdmit now =>
      simp only [routes, Option.some.injEq] at routed
      subst routed
      simp [now]
    | _ => simp [routes] at routed
  rw [call_fixed ⟨_, before⟩ (run_cons one after) begun] at app
  have spawned := app_call_spawned before begun app
  obtain ⟨p, first, there⟩ := mem_take_index spawned
  obtain ⟨j, h, order, admitted, _⟩ := served_after_accept run there rfl
  exact ⟨j, h, by omega, admitted⟩

def AdmittedAt (acts : List Act) (i : Nat) (k : ConnId) (h : HelloRequest) : Prop :=
  acts[i]? = some (.consume k h true)

/-- Every admission is paid for by an `issue_token` call of its own, and nothing is done for a
    connection before that. -/
theorem admissions_accounted (run : BrokerRun env acts w) :
    (∀ i k h, AdmittedAt acts i k h → ∃ j, Spends acts i h j) ∧
    (∀ i i' j k k' h h', AdmittedAt acts i k h → AdmittedAt acts i' k' h' → Spends acts i h j →
      Spends acts i' h' j → i = i') ∧
    (∀ service, acts.countP (admits service) ≤ acts.countP (issues service)) ∧
    (taken mintTakes acts < 2 ^ 64 → ∀ i i' k k' h h', AdmittedAt acts i k h →
      AdmittedAt acts i' k' h' → h.authToken = h'.authToken → i = i') ∧
    (∀ i a k, At acts i a → servedFor a = some k →
      ∃ j h, j < i ∧ AdmittedAt acts j k h ∧ ∀ s, a = .generate k s → s.hello = h) ∧
    ∀ i a c k inv, At acts i a → routes a = some c → (w.call c).origin = .app k inv →
      ∃ j h, j < i ∧ AdmittedAt acts j k h := by
  refine ⟨fun i k h here => admission_spends run here,
    fun i i' j k k' h h' here there first second => spends_distinct here there first second,
    admissions_le_issued run, ?_, fun i a k here served => served_after_accept run here served,
    fun i a c k inv here routed app => routed_after_accept run here routed app⟩
  intro few i i' k k' h h' here there same
  obtain ⟨j, first⟩ := admission_spends run here
  obtain ⟨j', second⟩ := admission_spends run there
  have issued := first.1
  rw [same] at issued
  have places := issue_unique run few issued second.1
  subst places
  exact spends_distinct here there first second

theorem video_run_accounted : ∃ j, Spends videoActs 4 (videoHello videoToken) j :=
  (admissions_accounted video_run).1 4 0 _ rfl

/-- Both Hello frames of two token checks were read before either check was made. -/
def Concurrent (acts : List Act) (i i' : Nat) (k k' : ConnId) (h h' : HelloRequest) : Prop :=
  ∃ p p', p < min i i' ∧ p' < min i i' ∧ acts[p]? = some (.hello k h) ∧
    acts[p']? = some (.hello k' h')

def OneOfTwoAdmitted (env : Env) : Prop :=
  ∀ acts w i i' k k' h h', BrokerRun env acts w → AdmittedAt acts i k h →
    AdmittedAt acts i' k' h' → h.authToken = h'.authToken → Concurrent acts i i' k k' h h' →
    i = i'

theorem issue_many (env : Env) (w : World) (idle : w.minted 0 = none) (n : Nat) :
    ∃ acts v, Run (Step env) w acts v ∧ v.phase = w.phase ∧ v.minted 0 = none ∧
      v.broker.counter = w.broker.counter + UInt64.ofNat n := by
  induction n with
  | zero => exact ⟨[], w, Run.nil, rfl, idle, by simp⟩
  | succ n ih =>
    obtain ⟨acts, v, run, phase, still, counter⟩ := ih
    refine ⟨_, World.issued env v "audio" 0, run_append run (token_issued env v still "audio" 0), phase,
      still, ?_⟩
    change v.broker.counter + 1 = _
    rw [counter, UInt64.ofNat_add, UInt64.add_assoc]
    rfl

def greetActs (h : HelloRequest) : List Act :=
  [.accept 0, .hello 0 h, .accept 1, .hello 1 h, .consume 0 h true]

theorem greet_twice (env : Env) (w : World) {token : String} (first : w.phase 0 = .unused)
    (second : w.phase 1 = .unused) (issued : w.broker.tokens "video" = some token) :
    ∃ v, Run (Step env) w (greetActs (videoHello token)) v ∧
      v.phase 1 = .check (videoHello token) ∧ v.broker.counter = w.broker.counter ∧
      v.minted = w.minted := by
  have run : Run (Step env) w [] w := Run.nil
  have run := run.snoc (Step.accept first)
  have run := run.snoc (Step.hello (k := 0) (h := videoHello token) rfl)
  have run := run.snoc (Step.accept (k := 1) second)
  have run := run.snoc (Step.hello (k := 1) (h := videoHello token) rfl)
  have run := run.snoc (Step.consume (k := 0) (h := videoHello token) rfl
    (consume_accepts.mpr issued).symm)
  exact ⟨_, run, rfl, rfl, rfl⟩

theorem same_token_admitted_twice : ¬ OneOfTwoAdmitted standardEnv := by
  intro claim
  obtain ⟨x, greet, waiting, counter, minted⟩ := @greet_twice standardEnv
    (World.issued standardEnv World.init "video" 0) videoToken rfl rfl rfl
  obtain ⟨acts, y, many, phase, idle, last⟩ := issue_many standardEnv x (by rw [minted]; rfl)
    (2 ^ 64 - 1)
  have wrapped : y.broker.counter = 0 := by
    rw [last, counter]
    decide
  have present : (World.issued standardEnv y "video" 0).broker.tokens "video" = some videoToken := by
    unfold World.issued
    rw [wrapped]
    rfl
  have greeted : (World.issued standardEnv y "video" 0).phase 1 = .check (videoHello videoToken) := by
    change y.phase 1 = _
    rw [phase, waiting]
  have start := @token_issued standardEnv World.init 0 rfl "video" 0
  have again := token_issued standardEnv y idle "video" 0
  have second := @Step.consume standardEnv _ _ _ _ greeted (consume_accepts.mpr present).symm
  have run := (run_append (run_append (run_append start greet) many) again).snoc second
  rw [List.append_assoc, List.append_assoc] at run
  have last_at : ∀ c : Act, (issueActs standardEnv 0 "video" 0 0 ++
      greetActs (videoHello videoToken) ++ (acts ++
        (issueActs standardEnv 0 "video" 0 y.broker.counter ++ [c])))[acts.length + 9]? = some c := by
    intro c
    simp [issueActs, greetActs]
  have places := claim _ _ 6 (acts.length + 9) 0 1 _ _ run rfl (last_at _) rfl
    ⟨3, 5, by omega, by omega, rfl, rfl⟩
  omega

end TokimoAdmission

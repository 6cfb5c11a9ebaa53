import TokimoBus.Admission

/-!
The spawn tokens of one machine. Any number of processes call `random_token`, each from any of
its threads: a call reads the system clock, then takes a number from the `COUNTER` of its
process. The clock reads whatever it likes, before the epoch too.
-/
namespace TokimoTokens
open TokimoBroker TokimoSession TokimoWire TokimoAdmission TokimoProgress LabelledRuns
open WrappingCounter

abbrev ProcessId := Nat
abbrev MintId := Nat

/-- What `random_token` makes of a clock reading, in nanoseconds since the epoch: a time before
    it is an error of `duration_since`, and `as u64` keeps the low 64 bits of a later one. -/
def epochNanos (now : Int) : UInt64 := if now < 0 then 0 else UInt64.ofNat now.toNat

/-- The counter of each process, and the calls that have read the clock and are about to take
    their number. -/
structure Processes where
  counter : ProcessId → UInt64
  minting : MintId → Option (ProcessId × UInt64)

def Processes.init : Processes := ⟨fun _ => 0, fun _ => none⟩

def Processes.setMinting (s : Processes) (n : MintId) (m : Option (ProcessId × UInt64)) :
    Processes :=
  { s with minting := Function.update s.minting n m }

def Processes.fetchAdd (s : Processes) (p : ProcessId) : Processes :=
  { s with counter := Function.update s.counter p (s.counter p + 1) }

inductive TokenAct where
  | clock (n : MintId) (p : ProcessId) (now : Int)
  | mint (n : MintId) (p : ProcessId) (ctr : UInt64) (token : String)

inductive TokenStep (pid : ProcessId → UInt32) : Processes → TokenAct → Processes → Prop where
  | clock {s : Processes} {n : MintId} {p : ProcessId} {now : Int} (new : s.minting n = none) :
      TokenStep pid s (.clock n p now) (s.setMinting n (some (p, epochNanos now)))
  | mint {s : Processes} {n : MintId} {p : ProcessId} {ns : UInt64}
      (here : s.minting n = some (p, ns)) :
      TokenStep pid s (.mint n p (s.counter p) (tokenText ns (pid p) (s.counter p)))
        ((s.fetchAdd p).setMinting n none)

variable {pid : ProcessId → UInt32} {s s' : Processes} {a : TokenAct} {acts : List TokenAct}
  {n : MintId} {p q : ProcessId} {ctr : UInt64} {token : String} {env : Env} {w : World}
  {trace : List Act}

abbrev TokenRun (pid : ProcessId → UInt32) (acts : List TokenAct) (s : Processes) : Prop :=
  Run (TokenStep pid) Processes.init acts s

def returns : TokenAct → Option String
  | .mint _ _ _ token => some token
  | _ => none

def takes (p : ProcessId) : TokenAct → Option UInt64
  | .mint _ q ctr _ => if q = p then some ctr else none
  | _ => none

def Mints (acts : List TokenAct) (p : ProcessId) : Prop :=
  ∃ n ctr token, .mint n p ctr token ∈ acts

theorem process_counts (p : ProcessId) :
    Counts (TokenStep pid) (fun s => s.counter p) (takes p) 0 where
  take := by
    intro s a s' v step number
    cases step with
    | clock => cases number
    | @mint n q ns here =>
      by_cases same : q = p
      · subst same
        simp only [takes, ↓reduceIte, Option.some.injEq] at number
        subst number
        exact ⟨by simp, by simp [Processes.setMinting, Processes.fetchAdd]⟩
      · simp [takes, same] at number
  keep := by
    intro s a s' step other
    cases step with
    | clock => rfl
    | @mint n q ns here =>
      have apart : p ≠ q := by
        rintro rfl
        simp [takes] at other
      simp [Processes.setMinting, Processes.fetchAdd, apart]

theorem mint_made (step : TokenStep pid s (.mint n p ctr token) s') :
    ∃ ns, token = tokenText ns (pid p) ctr := by
  cases step with
  | @mint _ _ ns here => exact ⟨ns, rfl⟩

theorem token_once (run : TokenRun pid acts s) (few : ∀ p, taken (takes p) acts ≤ 2 ^ 64)
    (apart : ∀ p q, Mints acts p → Mints acts q → pid p = pid q → p = q) {i j : Nat} {m : MintId}
    {ctr' : UInt64} (here : acts[i]? = some (.mint n p ctr token))
    (there : acts[j]? = some (.mint m q ctr' token)) : i = j := by
  obtain ⟨v, v', _, one, _⟩ := run_at run here
  obtain ⟨u, u', _, other, _⟩ := run_at run there
  obtain ⟨ns, text⟩ := mint_made one
  obtain ⟨ns', text'⟩ := mint_made other
  obtain ⟨_, processes, numbers⟩ := tokenText_injective (text.symm.trans text')
  have same : p = q :=
    apart p q ⟨_, _, _, List.mem_of_getElem? here⟩ ⟨_, _, _, List.mem_of_getElem? there⟩ processes
  subst same
  subst numbers
  exact taken_once (process_counts p) run (few p) (v := ctr) here (if_pos rfl) there (if_pos rfl)

/-- Spawn tokens are unique, whatever the clock reads. -/
theorem tokens_distinct (run : TokenRun pid acts s) (few : ∀ p, taken (takes p) acts ≤ 2 ^ 64)
    (apart : ∀ p q, Mints acts p → Mints acts q → pid p = pid q → p = q) :
    (acts.filterMap returns).Nodup := by
  refine nodup_of_once fun {i j a b token} here first there second => ?_
  cases a with
  | clock => cases first
  | mint n p ctr token₁ =>
    cases b with
    | clock => cases second
    | mint m q ctr' token₂ =>
      cases first
      cases second
      exact token_once run few apart here there

theorem epochNanos_later (ns : UInt64) : epochNanos ns.toNat = ns := by
  simp [epochNanos]

theorem token_made (idle : s.minting n = none) (p : ProcessId) (now : Int) :
    Run (TokenStep pid) s
      [.clock n p now, .mint n p (s.counter p) (tokenText (epochNanos now) (pid p) (s.counter p))]
      (s.fetchAdd p) := by
  have first := run_single (@TokenStep.clock pid s n p now idle)
  have here : (s.setMinting n (some (p, epochNanos now))).minting n = some (p, epochNanos now) := by
    simp [Processes.setMinting]
  have last := first.snoc (TokenStep.mint here)
  have left : ((s.setMinting n (some (p, epochNanos now))).fetchAdd p).setMinting n none =
      s.fetchAdd p := by
    simp only [Processes.setMinting, Processes.fetchAdd, Function.update_idem]
    rw [← idle, Function.update_eq_self]
  rw [left] at last
  exact last

def tokenActs : Act → List TokenAct
  | .mint n _ ns ctr token => [.clock n 0 ns.toNat, .mint n 0 ctr token]
  | _ => []

def process (w : World) : Processes :=
  ⟨Function.update (fun _ => 0) 0 w.broker.counter, fun _ => none⟩

theorem broker_tokens (run : BrokerRun env trace w) :
    TokenRun (fun _ => env.pid) (trace.flatMap tokenActs) (process w) := by
  have start : process World.init = Processes.init := by
    simp [process, World.init, Broker.new, Processes.init]
  rw [TokenRun, ← start]
  refine run_map process tokenActs ?_ run
  intro v a v' _ step
  cases step with
  | @mint n service token ns new text =>
    subst text
    have made := @token_made (fun _ => env.pid) (process v) n rfl 0 ns.toNat
    have number : (process v).counter 0 = v.broker.counter := by simp [process]
    have counted : (process v).fetchAdd 0 = process ((v.withBroker
        (v.broker.randomToken env.pid ns).2).setMinted n (some (service, (v.broker.randomToken
          env.pid ns).1))) := by
      simp [process, Processes.fetchAdd, Broker.randomToken, World.withBroker, World.setMinted]
    rw [epochNanos_later, number, counted] at made
    exact made
  | _ => exact Run.nil

def brokenClockActs : List TokenAct :=
  [.clock 0 0 (-1), .clock 1 1 (2 ^ 64), .mint 1 1 0 (tokenText 0 2 0),
    .mint 0 0 0 (tokenText 0 1 0),
    .clock 0 0 (-5), .mint 0 0 1 (tokenText 0 1 1)]

theorem broken_clock_run : ∃ s, TokenRun (fun p => if p = 0 then 1 else 2) brokenClockActs s := by
  have run : TokenRun (fun p => if p = 0 then 1 else 2) [] Processes.init := Run.nil
  have run := run.snoc (@TokenStep.clock _ _ 0 0 (-1) rfl)
  have run := run.snoc (@TokenStep.clock _ _ 1 1 (2 ^ 64) rfl)
  have run := run.snoc (@TokenStep.mint _ _ 1 1 0 rfl)
  have run := run.snoc (@TokenStep.mint _ _ 0 0 0 rfl)
  have run := run.snoc (@TokenStep.clock _ _ 0 0 (-5) rfl)
  have run := run.snoc (@TokenStep.mint _ _ 0 0 0 rfl)
  exact ⟨_, run⟩

theorem broken_clock_distinct : (brokenClockActs.filterMap returns).Nodup := by
  obtain ⟨s, run⟩ := broken_clock_run
  refine tokens_distinct run ?_ ?_
  · intro p
    have few := @List.countP_le_length _ (fun a => (takes p a).isSome) brokenClockActs
    exact Nat.le_trans few (by decide)
  · rintro p q ⟨n, ctr, token, mem⟩ ⟨m, ctr', token', mem'⟩ same
    simp only [brokenClockActs, List.mem_cons, reduceCtorEq, TokenAct.mint.injEq, List.not_mem_nil,
      or_false, false_or] at mem mem'
    rcases mem with ⟨_, rfl, _⟩ | ⟨_, rfl, _⟩ | ⟨_, rfl, _⟩ <;>
      rcases mem' with ⟨_, rfl, _⟩ | ⟨_, rfl, _⟩ | ⟨_, rfl, _⟩ <;> simp at same ⊢

end TokimoTokens

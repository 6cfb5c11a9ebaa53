import TokimoBus.CallResults
import TokimoBus.Client

/-!
How an app addresses a method of another service. The client joins the two names with a dot and
the broker splits the text at its first one. Method names may contain dots; nothing keeps a
service from registering under a name that contains one, and such a service is not reached.
-/
namespace TokimoAddressing
open TokimoFrame TokimoBroker TokimoSession TokimoClient TokimoProgress TokimoResults
open TokimoWire (standardEnv)
open LabelledRuns
variable {env : Env} {acts : List Act} {x : InvokeArgs}

inductive Accepted (acts : List Act) : String → Prop where
  | hello {k : ConnId} {h : HelloRequest} (admitted : .consume k h true ∈ acts) :
      Accepted acts h.service
  | locally {n : Nat} {service : String} {h : HandlerId}
      (registered : .registerHandler n service h ∈ acts) : Accepted acts service

def hostInvoke (env : Env) (x : InvokeArgs) : Call :=
  ⟨.host, x.service, x.method, x.payload, x.caller, env.config.defaultCallTimeout⟩

/-- The service and the method that the task spawned for an Invoke frame calls, if it makes a
    call. -/
def target (env : Env) (k : ConnId) (originator : String) (inv : Invoke) :
    Option (String × String) :=
  match appCall env.config k originator inv with
  | (c, .start) => some (c.service, c.method)
  | _ => none

/-- The invokes of services whose names the broker has accepted are addressed as the caller
    wrote them. -/
structure Addressed (env : Env) (acts : List Act) : Prop where
  exact : ∀ (x : InvokeArgs) r k originator, Accepted acts x.service →
    target env k originator (x.frame r) = some (x.service, x.method)
  host : ∀ (x : InvokeArgs) r k originator, Accepted acts x.service →
    appCall env.config k originator (x.frame r) =
      ({ hostInvoke env x with
        origin := .app k (x.frame r)
        caller := { x.caller with callerAppId := some originator } }, .start)
  apart : ∀ (x y : InvokeArgs) r r' k k' originator originator', Accepted acts x.service →
    Accepted acts y.service →
    target env k originator (x.frame r) = target env k' originator' (y.frame r') →
    x.service = y.service ∧ x.method = y.method

theorem splitOnce_plain {text before after : String} (parts : splitOnce text = some (before, after)) :
    '.' ∉ before.toList := by
  unfold splitOnce at parts
  cases spans : text.toList.span (· ≠ '.') with
  | mk front back =>
    have front_eq : front = text.toList.takeWhile (· ≠ '.') := by
      rw [List.span_eq_takeWhile_dropWhile] at spans
      exact (congrArg Prod.fst spans).symm
    rw [spans] at parts
    cases back with
    | nil => cases parts
    | cons c cs =>
      simp only [Option.some.injEq, Prod.mk.injEq] at parts
      intro mem
      rw [← parts.1, String.toList_ofList, front_eq] at mem
      have all := List.all_eq_true.mp (List.all_takeWhile (p := (· ≠ '.')) (l := text.toList)) _ mem
      simp at all

theorem target_split (k : ConnId) (originator : String) (inv : Invoke) :
    target env k originator inv = splitOnce inv.method := by
  unfold target appCall
  cases splitOnce inv.method <;> rfl

theorem host_of_plain (plain : '.' ∉ x.service.toList) (r : UInt64) (k : ConnId)
    (originator : String) : appCall env.config k originator (x.frame r) =
      ({ hostInvoke env x with
        origin := .app k (x.frame r)
        caller := { x.caller with callerAppId := some originator } }, .start) := by
  have parts := @splitOnce_joined x.service x.method plain
  unfold appCall
  simp only [InvokeArgs.frame, parts, hostInvoke]

/-- Invokes are addressed as written exactly when no accepted name contains a dot. -/
theorem addressed_iff_plain (acts : List Act) :
    Addressed env acts ↔ ∀ service, Accepted acts service → '.' ∉ service.toList := by
  constructor
  · intro addressed service accepted
    have whole := addressed.exact ⟨service, "", [], CallerCtx.default⟩ 0 0 "" accepted
    rw [target_split] at whole
    exact splitOnce_plain whole
  · intro plain
    have split : ∀ (x : InvokeArgs) r k originator, Accepted acts x.service →
        target env k originator (x.frame r) = some (x.service, x.method) := by
      intro x r k originator accepted
      rw [target_split]
      exact splitOnce_joined (plain _ accepted)
    constructor
    · exact split
    · intro x r k originator accepted
      exact host_of_plain (plain _ accepted) r k originator
    · intro x y r r' k k' originator originator' first second same
      rw [split x r k originator first, split y r' k' originator' second] at same
      simp only [Option.some.injEq, Prod.mk.injEq] at same
      exact same

def dottedHello (token : String) : HelloRequest :=
  ⟨ProtocolVersion.current, "a.b", "0.1.0", 7, token, [openMethod "c"], [], none⟩

def dottedSession : Session := ⟨dottedHello videoToken, 1, 1⟩

def dottedActs : List Act :=
  issueActs standardEnv 0 "a.b" 0 0 ++ connectActs standardEnv 0 dottedSession 0

theorem dotted_run : ∃ w, BrokerRun standardEnv dottedActs w := by
  have issued := token_issued standardEnv World.init (n := 0) rfl "a.b" 0
  have joined := @connects standardEnv (World.issued standardEnv World.init "a.b" 0) 0 0
    (dottedHello videoToken) rfl rfl rfl rfl (by decide +kernel)
  exact ⟨_, run_append issued joined⟩

/-- The broker accepts a service under a name with a dot, and does not find it there. -/
theorem dotted_unaddressed : ¬ ∀ acts w, BrokerRun standardEnv acts w →
    Addressed standardEnv acts := by
  intro claim
  obtain ⟨w, run⟩ := dotted_run
  have accepted : Accepted dottedActs "a.b" :=
    .hello (k := 0) (h := dottedHello videoToken) (by simp [dottedActs, connectActs, dottedSession])
  have whole := (claim dottedActs w run).exact ⟨"a.b", "c", [], CallerCtx.default⟩ 1 0 "audio" accepted
  rw [target_split] at whole
  exact absurd (splitOnce_plain whole) (by decide)

end TokimoAddressing

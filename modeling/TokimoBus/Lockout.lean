import TokimoBus.Admission
import Mathlib.Tactic.IntervalCases

/-!
What a rejected Hello costs. `consume_token` removes the token before it compares it,
so the token issued for a service is spent by the first Hello for that service whose
token is checked, accepted or not.
-/
namespace TokimoLockout
open TokimoFrame TokimoOutbound TokimoBroker TokimoSession TokimoWire TokimoProgress
open TokimoAdmission LabelledRuns SlotLedger
variable {env : Env} {w : World} {acts : List Act}

def Checks (service : String) (a : Act) : Prop := ∃ k h ok, a = .consume k h ok ∧ h.service = service

/-- `issue_token(service)` stored `token` at `i`, and up to `j` no other token was stored for
    the service and no Hello for it was accepted. -/
structure StillIssued (acts : List Act) (service token : String) (i j : Nat) : Prop where
  order : i < j
  stored : ∃ n, acts[i]? = some (.issue n service token)
  last : ∀ m n other, i < m → m < j → acts[m]? ≠ some (.issue n service other)
  unused : ∀ m k h, i < m → m < j → h.service = service → acts[m]? ≠ some (.consume k h true)

theorem verdict_of_slot {x y : World} {k : ConnId} {h : HelloRequest} {ok : Bool}
    (one : Step env x (.consume k h ok) y) :
    ok = true ↔ x.broker.tokens h.service = some h.authToken := by
  cases one with
  | consume _ verdict =>
    rw [verdict]
    exact consume_accepts

/-- The right token is accepted exactly if no other Hello for the service has had its token
    checked since it was issued. -/
theorem accepted_iff_unchecked (run : BrokerRun env acts w) {i j : Nat} {k : ConnId}
    {h : HelloRequest} {ok : Bool} (issued : StillIssued acts h.service h.authToken i j)
    (here : acts[j]? = some (.consume k h ok)) :
    ok = true ↔ ∀ m b, i < m → m < j → acts[m]? = some b → ¬ Checks h.service b := by
  obtain ⟨n, stored⟩ := issued.stored
  constructor
  · rintro rfl m b after before there ⟨k', h', ok', rfl, same⟩
    have emptied : tokenTouch (.consume k' h' ok') = some (h.service, none) := by
      simp [tokenTouch, same]
    have unfilled : ∀ p c, m < p → p < j → acts[p]? = some c →
        ∀ v, tokenTouch c ≠ some (h.service, some v) := by
      intro p c low high found v fills
      cases c with
      | issue n' s t =>
        simp only [tokenTouch, Option.some.injEq, Prod.mk.injEq] at fills
        obtain ⟨rfl, rfl⟩ := fills
        exact issued.last p n' _ (by omega) high found
      | _ => simp [tokenTouch] at fills
    obtain ⟨x, y, _, one, gone⟩ := empty_since token_ledger run before there emptied unfilled here
    cases ((verdict_of_slot one).mp rfl).symm.trans gone
  · intro clear
    have filled : FilledBy tokenTouch acts h.service h.authToken j i := by
      refine ⟨issued.order, ⟨_, stored, rfl⟩, ?_⟩
      rintro m c low high found ⟨v, touched⟩
      cases c with
      | issue n' s t =>
        simp only [tokenTouch, Option.some.injEq, Prod.mk.injEq] at touched
        obtain ⟨rfl, _⟩ := touched
        exact issued.last m n' t low high found
      | consume k' h' ok' =>
        simp only [tokenTouch, Option.some.injEq, Prod.mk.injEq] at touched
        exact clear m _ low high found ⟨k', h', ok', rfl, touched.1⟩
      | _ => simp [tokenTouch] at touched
    obtain ⟨x, y, _, one, full⟩ := found_of_filled token_ledger run filled here
    exact (verdict_of_slot one).mpr full

theorem video_run_unchecked : (true = true) ↔ ∀ m b, 1 < m → m < 4 → videoActs[m]? = some b →
    ¬ Checks "video" b := by
  refine accepted_iff_unchecked video_run (h := videoHello videoToken)
    ⟨by omega, ⟨0, rfl⟩, ?_, ?_⟩ rfl
  · intro m n other low high
    interval_cases m <;> simp [videoActs, issueActs, connectActs]
  · intro m k h low high
    interval_cases m <;> simp [videoActs, issueActs, connectActs]

def RejectionKeepsToken (env : Env) : Prop :=
  ∀ acts w i j k h ok, BrokerRun env acts w → StillIssued acts h.service h.authToken i j →
    acts[j]? = some (.consume k h ok) → ok = true

/-- A Hello with a made-up token comes first, then the one with the token that was issued. -/
def lockoutActs : List Act :=
  [.mint 0 "video" 0 0 (tokenText 0 1 0), .issue 0 "video" (tokenText 0 1 0), .accept 0,
    .hello 0 (videoHello "bogus"), .consume 0 (videoHello "bogus") false, .accept 1,
    .hello 1 (videoHello (tokenText 0 1 0)), .consume 1 (videoHello (tokenText 0 1 0)) false]

theorem lockout_run : ∃ w, BrokerRun standardEnv lockoutActs w := by
  have run : BrokerRun standardEnv [] World.init := Run.nil
  have run := run.snoc (@Step.mint _ _ 0 "video" (tokenText 0 1 0) 0 rfl rfl)
  have run := run.snoc (@Step.issue _ _ 0 _ _ rfl)
  have run := run.snoc (@Step.accept _ _ 0 rfl)
  have run := run.snoc (@Step.hello _ _ 0 (videoHello "bogus") rfl)
  have run := run.snoc (@Step.consume _ _ 0 (videoHello "bogus") false rfl (by decide +kernel))
  have run := run.snoc (@Step.accept _ _ 1 rfl)
  have run := run.snoc (@Step.hello _ _ 1 (videoHello (tokenText 0 1 0)) rfl)
  have run := run.snoc (@Step.consume _ _ 1 (videoHello (tokenText 0 1 0)) false rfl rfl)
  exact ⟨_, run⟩

theorem right_token_rejected : ¬ RejectionKeepsToken standardEnv := by
  intro claim
  obtain ⟨w, run⟩ := lockout_run
  have issued : StillIssued lockoutActs "video" (tokenText 0 1 0) 1 7 := by
    refine ⟨by omega, ⟨0, rfl⟩, ?_, ?_⟩
    · intro m n other low high
      interval_cases m <;> simp [lockoutActs]
    · intro m k h low high
      interval_cases m <;> simp [lockoutActs]
  have accepted := claim lockoutActs w 1 7 1 (videoHello (tokenText 0 1 0)) false run issued rfl
  cases accepted

end TokimoLockout

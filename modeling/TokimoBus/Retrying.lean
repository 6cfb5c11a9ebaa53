import Mathlib.Algebra.BigOperators.Group.Finset.Basic

/-!
Trying again until it works, the error is final, or patience is over. A try is anything that begins
at some time, makes a number of attempts, and is over at some time with a result; the loop around it
is a try again, so that loops nest. The clock is read after every failure, and nothing is assumed
about how long a try or a sleep takes beyond what is asked for.
-/
namespace Retrying

abbrev Try (ε α : Type) := Nat → Nat → Except ε α → Nat → Prop

structure Policy (ε : Type) where
  transient : ε → Prop
  patience : Nat
  pause : Nat → Nat

variable {ε δ α : Type} {p : Policy ε} {one : Try ε α} {start t u v m k : Nat} {n cost : Nat}
  {r : Except ε α} {e : ε}

/-- So many rounds have failed, with so many attempts, and the next one begins. -/
inductive Rounds (p : Policy ε) (one : Try ε α) (start : Nat) : Nat → Nat → Nat → Prop where
  | begins {t : Nat} (later : start ≤ t) : Rounds p one start 0 0 t
  | again {n cost c : Nat} {t u now v : Nat} {e : ε} (before : Rounds p one start n cost t)
      (failed : one t c (.error e) u) (transient : p.transient e) (read : u ≤ now)
      (early : now < start + p.patience) (slept : now + p.pause n ≤ v) :
      Rounds p one start (n + 1) (cost + c) v

inductive Loop (p : Policy ε) (one : Try ε α) (start : Nat) : Nat → Except ε α → Nat → Prop where
  | returns {n cost c : Nat} {t u : Nat} {r : Except ε α} (before : Rounds p one start n cost t)
      (last : one t c r u) (final : ∀ e, r = .error e → ¬ p.transient e) :
      Loop p one start (cost + c) r u
  | tires {n cost c : Nat} {t u now : Nat} {e : ε} (before : Rounds p one start n cost t)
      (failed : one t c (.error e) u) (transient : p.transient e) (read : u ≤ now)
      (late : start + p.patience ≤ now) : Loop p one start (cost + c) (.error e) now

def Try.mapError (f : ε → δ) (one : Try ε α) : Try δ α :=
  fun t c r u => ∃ r', one t c r' u ∧ r = r'.mapError f

def Forward (one : Try ε α) : Prop := ∀ {t c r u}, one t c r u → t ≤ u

def Lasts (p : Policy ε) (one : Try ε α) (m : Nat) : Prop :=
  ∀ {t c e u}, one t c (.error e) u → p.transient e → t + m ≤ u

def Costs (one : Try ε α) (k : Nat) : Prop := ∀ {t c r u}, one t c r u → c ≤ k

def spent (p : Policy ε) (m n : Nat) : Nat := n * m + ∑ i ∈ Finset.range n, p.pause i

theorem spent_succ (p : Policy ε) (m n : Nat) : spent p m (n + 1) = spent p m n + m + p.pause n := by
  unfold spent
  rw [Finset.sum_range_succ, Nat.succ_mul]
  omega

theorem spent_mono (p : Policy ε) (m : Nat) {n n' : Nat} (order : n ≤ n') :
    spent p m n ≤ spent p m n' := by
  induction order with
  | refl => exact Nat.le_refl _
  | step _ ih =>
    rw [spent_succ]
    omega

theorem Rounds.takes (lasts : Lasts p one m) (rounds : Rounds p one start n cost t) :
    start + spent p m n ≤ t := by
  induction rounds with
  | begins later => simpa [spent] using later
  | again _ failed transient read _ slept ih =>
    have long := lasts failed transient
    rw [spent_succ]
    omega

/-- The rounds but the last pause fit into the time that the loop has. -/
theorem Rounds.fits (lasts : Lasts p one m) (rounds : Rounds p one start (n + 1) cost t) :
    spent p m n + m < p.patience := by
  cases rounds with
  | again before failed transient read early _ =>
    have long := lasts failed transient
    have took := before.takes lasts
    omega

theorem Rounds.few (lasts : Lasts p one m) (rounds : Rounds p one start n cost t)
    (full : p.patience ≤ spent p m k + m) : n ≤ k := by
  cases n with
  | zero => exact Nat.zero_le k
  | succ n =>
    by_contra more
    have fits := rounds.fits lasts
    have grown := spent_mono p m (show k ≤ n by omega)
    omega

theorem Rounds.costs (costs : Costs one k) (rounds : Rounds p one start n cost t) :
    cost ≤ n * k := by
  induction rounds with
  | begins => simp
  | again _ failed _ _ _ _ ih =>
    have one_more := costs failed
    rw [Nat.succ_mul]
    omega

theorem Rounds.forward (forward : Forward one) (rounds : Rounds p one start n cost t) :
    start ≤ t := by
  have lasts : Lasts p one 0 := fun failed _ => forward failed
  exact Nat.le_trans (Nat.le_add_right _ _) (rounds.takes lasts)

theorem Loop.forward (forward : Forward one) : Forward (Loop p one) := by
  intro t c r u loop
  cases loop with
  | returns before last =>
    have began := before.forward forward
    have ended := forward last
    omega
  | tires before failed _ read =>
    have began := before.forward forward
    have ended := forward failed
    omega

theorem Loop.patient (loop : Loop p one start cost (.error e) u) (transient : p.transient e) :
    start + p.patience ≤ u := by
  cases loop with
  | returns _ _ final => exact absurd transient (final e rfl)
  | tires _ _ _ _ late => exact late

/-- The error of a loop is that of its last try, after which it does not sleep. -/
theorem Loop.last_try (loop : Loop p one start cost (.error e) v) :
    ∃ n before t c u, Rounds p one start n before t ∧ one t c (.error e) u ∧ u ≤ v ∧
      cost = before + c := by
  cases loop with
  | returns before last => exact ⟨_, _, _, _, _, before, last, Nat.le_refl _, rfl⟩
  | tires before failed _ read => exact ⟨_, _, _, _, _, before, failed, read, rfl⟩

theorem Loop.costs (lasts : Lasts p one m) (few : p.patience ≤ spent p m n + m)
    (costs : Costs one k) : Costs (Loop p one) ((n + 1) * k) := by
  have bound : ∀ {start t : Nat} {n' cost c : Nat}, Rounds p one start n' cost t → c ≤ k →
      cost + c ≤ (n + 1) * k := by
    intro start t n' cost c before last
    have rounds := Nat.mul_le_mul_right k (before.few lasts few)
    have paid := before.costs costs
    rw [Nat.succ_mul]
    omega
  intro t c r u loop
  cases loop with
  | returns before last => exact bound before (costs last)
  | tires before failed => exact bound before (costs failed)

theorem mapError_forward {f : ε → δ} (forward : Forward one) : Forward (one.mapError f) := by
  intro t c r u mapped
  obtain ⟨r', tried, _⟩ := mapped
  exact forward tried

theorem mapError_costs {f : ε → δ} (costs : Costs one k) : Costs (one.mapError f) k := by
  intro t c r u mapped
  obtain ⟨r', tried, _⟩ := mapped
  exact costs tried

theorem mapError_error {f : ε → δ} {d : δ} {c : Nat} (tried : one.mapError f t c (.error d) u) :
    ∃ e, one t c (.error e) u ∧ d = f e := by
  obtain ⟨r', tried, same⟩ := tried
  cases r' with
  | ok a => cases same
  | error e =>
    cases same
    exact ⟨e, tried, rfl⟩

end Retrying

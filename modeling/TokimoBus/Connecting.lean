import TokimoBus.Config
import TokimoBus.Retrying
import Mathlib.Data.List.Infix

/-!
How `establish` comes to its stream. `BusStream::connect` tries the socket again for five seconds
where nobody listens yet, and around it `establish` tries again for `reconnect_max_backoff`, with
pauses that double. The inner loop goes by the kind of the error, the outer one by its text. The
operating system is a parameter: what a connect(2) that begins at some time returns, and when.
-/
namespace TokimoConnecting
open TokimoFrame TokimoConfig Retrying

inductive ErrorKind where
  | connectionRefused
  | notFound
  | permissionDenied
  | notADirectory
  | wouldBlock
  | other
  deriving DecidableEq

structure IoError where
  kind : ErrorKind
  text : String
  deriving DecidableEq

abbrev UnixConnect := Nat → Except IoError Unit → Nat → Prop

def millis (n : Nat) : Nat := n * 1000000

def unavailable : ErrorKind → Bool
  | .connectionRefused | .notFound => true
  | _ => false

def unixTry (os : UnixConnect) : Try IoError Unit := fun t c r u => c = 1 ∧ os t r u

/-- The loop in `BusStream::connect`. -/
def streamPolicy : Policy IoError where
  transient := fun e => unavailable e.kind = true
  patience := millis 5000
  pause := fun _ => millis 50

def streamConnect (os : UnixConnect) : Try IoError Unit := Loop streamPolicy (unixTry os)

def ofIo (e : IoError) : BusError := .io e.text

/-- `transport::connect`; on Unix `endpoint_to_socket` always finds a path. -/
def connect (os : UnixConnect) : Try BusError Unit := (streamConnect os).mapError ofIo

def contains (msg pat : String) : Bool := decide (pat.toList <:+: msg.toList)

def isTransientConnectMsg (msg : String) : Bool :=
  contains msg "Connection refused" || contains msg "No such file or directory"

def backoffMs : Nat → Nat
  | 0 => 50
  | n + 1 => min (backoffMs n * 2) 1000

def establishPolicy (maxBackoff : Duration) : Policy BusError where
  transient := fun e => ∃ msg, e = .io msg ∧ isTransientConnectMsg msg = true
  patience := maxBackoff.nanos
  pause := fun n => millis (backoffMs n)

def establishStream (os : UnixConnect) (cfg : ClientConfig) : Try BusError Unit :=
  match cfg.reconnectMaxBackoff with
  | some maxBackoff => Loop (establishPolicy maxBackoff) (connect os)
  | none => connect os

/-- So many rounds of `BusStream::connect` and so many tries of the socket have failed, and the
    next one begins. -/
def Trying (os : UnixConnect) (cfg : ClientConfig) (start rounds tries t : Nat) : Prop :=
  ∃ cost cost' n s, Rounds streamPolicy (unixTry os) s n cost' t ∧ tries = cost + cost' ∧
    match cfg.reconnectMaxBackoff with
    | some maxBackoff => Rounds (establishPolicy maxBackoff) (connect os) start rounds cost s
    | none => rounds = 0 ∧ cost = 0 ∧ s = start

/-- What the operating system does: a connect is not over before it began, and the text of its
    error is that of its kind. -/
structure Sound (os : UnixConnect) : Prop where
  forward : ∀ {t r u}, os t r u → t ≤ u
  worded : ∀ {t e u}, os t (.error e) u →
    (unavailable e.kind = true ↔ isTransientConnectMsg e.text = true)

variable {os : UnixConnect} {cfg : ClientConfig} {env : Environment} {start rounds tries t v : Nat}
  {cost : Nat} {e : BusError} {maxBackoff : Duration}

theorem unix_forward (sound : Sound os) : Forward (unixTry os) := by
  intro t c r u tried
  exact sound.forward tried.2

theorem unix_costs : Costs (unixTry os) 1 := by
  intro t c r u tried
  exact Nat.le_of_eq tried.1

theorem unix_lasts (sound : Sound os) : Lasts streamPolicy (unixTry os) 0 :=
  fun failed _ => unix_forward sound failed

theorem stream_spent (n : Nat) : spent streamPolicy 0 n = n * millis 50 := by
  simp [spent, streamPolicy]

theorem stream_few : streamPolicy.patience ≤ spent streamPolicy 0 100 + 0 := by
  rw [stream_spent]
  decide

theorem connect_lasts (sound : Sound os) :
    Lasts (establishPolicy maxBackoff) (connect os) (millis 5000) := by
  intro t c e u failed outer
  obtain ⟨msg, rfl, transient⟩ := outer
  obtain ⟨io, inner, same⟩ := mapError_error failed
  cases same
  obtain ⟨_, _, t', c', u', _, tried, _, _⟩ := inner.last_try
  have kind := (sound.worded tried.2).mpr transient
  exact inner.patient kind

theorem connect_costs (sound : Sound os) : Costs (connect os) 101 :=
  mapError_costs (Loop.costs (unix_lasts sound) stream_few unix_costs)

theorem fromEnv_backoff (configured : fromEnv env = .ok cfg) :
    cfg.reconnectMaxBackoff = some (Duration.fromSecs 30) := by
  unfold fromEnv at configured
  cases socket : env socketVar with
  | none =>
    rw [socket] at configured
    cases configured
  | some raw =>
    cases auth : env tokenVar with
    | none =>
      rw [socket, auth] at configured
      cases configured
    | some token =>
      rw [socket, auth] at configured
      cases configured
      rfl

/-- The rounds and the pauses between them fit into `reconnect_max_backoff`; no round has more than
    101 tries. -/
theorem rounds_fit (sound : Sound os) (trying : Trying os cfg start rounds tries t) :
    tries ≤ rounds * 101 + 100 ∧ ∀ n, rounds = n + 1 → ∃ maxBackoff,
      cfg.reconnectMaxBackoff = some maxBackoff ∧
      (n + 1) * millis 5000 + ∑ i ∈ Finset.range n, millis (backoffMs i) < maxBackoff.nanos := by
  obtain ⟨cost, cost', n, s, inner, rfl, outer⟩ := trying
  have few := inner.few (unix_lasts sound) stream_few
  have paid := inner.costs unix_costs
  cases known : cfg.reconnectMaxBackoff with
  | none =>
    rw [known] at outer
    obtain ⟨rfl, rfl, rfl⟩ := outer
    refine ⟨by omega, fun n some => by omega⟩
  | some maxBackoff =>
    rw [known] at outer
    have before := outer.costs (connect_costs sound)
    refine ⟨by omega, fun n more => ?_⟩
    subst more
    have fits := outer.fits (connect_lasts sound)
    refine ⟨maxBackoff, rfl, ?_⟩
    rw [Nat.succ_mul]
    unfold spent at fits
    change n * millis 5000 + ∑ i ∈ Finset.range n, millis (backoffMs i) + millis 5000 <
      maxBackoff.nanos at fits
    omega

/-- No client tries for ever: without a `reconnect_max_backoff` there is one round, a process that
    the supervisor has started makes no more than 6 rounds and 606 tries, and a cap of five seconds
    or less allows no second round. -/
theorem tries_bounded (sound : Sound os) (trying : Trying os cfg start rounds tries t) :
    (∀ t c r u, connect os t c r u → c ≤ 101) ∧ tries ≤ rounds * 101 + 100 ∧
    (∀ n, rounds = n + 1 → ∃ maxBackoff, cfg.reconnectMaxBackoff = some maxBackoff ∧
      (n + 1) * millis 5000 + ∑ i ∈ Finset.range n, millis (backoffMs i) < maxBackoff.nanos) ∧
    ∀ env, fromEnv env = .ok cfg → rounds ≤ 5 ∧ tries ≤ 605 := by
  obtain ⟨few, fits⟩ := rounds_fit sound trying
  refine ⟨fun t c r u round => connect_costs sound round, few, fits, fun env configured => ?_⟩
  have late : rounds ≤ 5 := by
    cases rounds with
    | zero => exact Nat.zero_le 5
    | succ n =>
      obtain ⟨maxBackoff, known, short⟩ := fits n rfl
      rw [fromEnv_backoff configured] at known
      cases known
      have seconds : (Duration.fromSecs 30).nanos = 6 * millis 5000 := rfl
      rw [seconds] at short
      have less : (n + 1) * millis 5000 < 6 * millis 5000 := by omega
      have := Nat.lt_of_mul_lt_mul_right less
      omega
  exact ⟨late, by omega⟩

theorem connect_error (failed : connect os start cost (.error e) v) :
    ∃ n tries t io u, Rounds streamPolicy (unixTry os) start n tries t ∧ cost = tries + 1 ∧
      os t (.error io) u ∧ u ≤ v ∧ e = .io io.text ∧
      (unavailable io.kind = true → start + millis 5000 ≤ v) := by
  obtain ⟨io, inner, same⟩ := mapError_error failed
  obtain ⟨n, tries, t, c, u, before, tried, ended, whole⟩ := inner.last_try
  obtain ⟨rfl, answered⟩ := tried
  exact ⟨n, tries, t, io, u, before, whole, answered, ended, same,
    fun transient => inner.patient transient⟩

/-- A client that does not get its stream has the error of its last try. If that is not that nobody
    listens, it came back with it at once; if it is, five seconds and `reconnect_max_backoff` are
    over. Where every try from some time on succeeds, the last try began before that time. -/
theorem gives_up (sound : Sound os) (failed : establishStream os cfg start cost (.error e) v) :
    ∃ rounds tries t io u, Trying os cfg start rounds tries t ∧ cost = tries + 1 ∧
      os t (.error io) u ∧ start ≤ t ∧ u ≤ v ∧ e = .io io.text ∧
      (unavailable io.kind = true → start + millis 5000 ≤ v ∧
        ∀ maxBackoff, cfg.reconnectMaxBackoff = some maxBackoff → start + maxBackoff.nanos ≤ v) ∧
      ∀ up, (∀ t r u, up ≤ t → os t r u → r = .ok ()) → t < up := by
  have early : ∀ {t io u up}, os t (.error io) u →
      (∀ t r u, up ≤ t → os t r u → r = .ok ()) → t < up := by
    intro t io u up tried works
    by_contra late
    cases works t _ u (Nat.le_of_not_lt late) tried
  unfold establishStream at failed
  cases known : cfg.reconnectMaxBackoff with
  | none =>
    rw [known] at failed
    obtain ⟨n, tries, t, io, u, before, whole, tried, ended, same, patient⟩ := connect_error failed
    have trying : Trying os cfg start 0 tries t := by
      refine ⟨0, tries, n, start, before, (Nat.zero_add _).symm, ?_⟩
      rw [known]
      exact ⟨rfl, rfl, rfl⟩
    exact ⟨0, tries, t, io, u, trying, whole, tried, before.forward (unix_forward sound), ended, same,
      fun kind => ⟨patient kind, fun _ some => by cases some⟩, fun up works => early tried works⟩
  | some maxBackoff =>
    rw [known] at failed
    have loop : Loop (establishPolicy maxBackoff) (connect os) start cost (.error e) v := failed
    obtain ⟨rounds, paid, s, c, v', outer, last, ended, whole⟩ := loop.last_try
    obtain ⟨n, tries, t, io, u, before, count, tried, ended_at, same, patient⟩ := connect_error last
    have began := outer.forward (mapError_forward (Loop.forward (unix_forward sound)))
    have later := before.forward (unix_forward sound)
    have trying : Trying os cfg start rounds (paid + tries) t := by
      refine ⟨paid, tries, n, s, before, rfl, ?_⟩
      rw [known]
      exact outer
    refine ⟨rounds, paid + tries, t, io, u, trying, by omega, tried, by omega, by omega, same,
      fun kind => ?_, fun up works => early tried works⟩
    have inner := patient kind
    have outer := loop.patient ⟨io.text, same, (sound.worded tried).mp kind⟩
    refine ⟨by omega, fun _ some => ?_⟩
    cases some
    exact outer

def refused : IoError := ⟨.connectionRefused, "Connection refused (os error 111)"⟩

def late : UnixConnect := fun t r u =>
  u = t ∧ r = if t < millis 60000 then .error refused else .ok ()

theorem late_sound : Sound late where
  forward := fun tried => Nat.le_of_eq tried.1.symm
  worded := by
    intro t e u tried
    have answer := tried.2
    split at answer <;> cases answer
    decide +kernel

theorem late_refuses {t : Nat} (early : t < millis 60000) : unixTry late t 1 (.error refused) t :=
  ⟨rfl, rfl, (if_pos early).symm⟩

theorem late_rounds {start : Nat} (early : start + millis 5000 < millis 60000) (n : Nat)
    (few : n ≤ 100) :
    Rounds streamPolicy (unixTry late) start n n (start + n * millis 50) := by
  induction n with
  | zero => exact Rounds.begins (Nat.le_add_right _ _)
  | succ n ih =>
    have before := ih (by omega)
    have short : n * millis 50 < millis 5000 := by
      have := Nat.mul_le_mul_right (millis 50) (by omega : n ≤ 99)
      unfold millis at this ⊢
      omega
    refine before.again (c := 1) (late_refuses (by omega)) rfl (Nat.le_refl _) ?_ ?_
    · change start + n * millis 50 < start + millis 5000
      omega
    · change start + n * millis 50 + millis 50 ≤ start + (n + 1) * millis 50
      rw [Nat.succ_mul]
      omega

theorem late_connect {start : Nat} (early : start + millis 5000 < millis 60000) :
    connect late start 101 (.error (.io refused.text)) (start + millis 5000) := by
  have tired : Loop streamPolicy (unixTry late) start (100 + 1) (.error refused)
      (start + 100 * millis 50) :=
    Loop.tires (late_rounds early 100 (Nat.le_refl _)) (late_refuses early) rfl (Nat.le_refl _)
      (Nat.le_refl _)
  exact ⟨.error refused, tired, rfl⟩

def spawnedConfig : ClientConfig :=
  ⟨.unixSocket "bus.sock", "token", some (Duration.fromSecs 30), none⟩

/-- A process whose broker does not listen yet, in its second round. -/
theorem late_bounded : (∀ t c r u, connect late t c r u → c ≤ 101) ∧ 101 ≤ 1 * 101 + 100 ∧
    (∀ n, 1 = n + 1 → ∃ maxBackoff, spawnedConfig.reconnectMaxBackoff = some maxBackoff ∧
      (n + 1) * millis 5000 + ∑ i ∈ Finset.range n, millis (backoffMs i) < maxBackoff.nanos) ∧
    ∀ env, fromEnv env = .ok spawnedConfig → 1 ≤ 5 ∧ 101 ≤ 605 := by
  have round : Rounds (establishPolicy (Duration.fromSecs 30)) (connect late) 0 1 101
      (millis 5050) := by
    have first : Rounds (establishPolicy (Duration.fromSecs 30)) (connect late) 0 0 0 0 :=
      Rounds.begins (Nat.le_refl 0)
    exact first.again (late_connect (by decide)) ⟨_, rfl, by decide +kernel⟩ (Nat.le_refl _)
      (by decide) (by decide)
  exact tries_bounded late_sound ⟨101, 0, 0, millis 5050, Rounds.begins (Nat.le_refl _), rfl, round⟩

def hastyConfig : ClientConfig :=
  ⟨.unixSocket "bus.sock", "token", some (Duration.fromSecs 4), none⟩

theorem late_gives_up : ∃ rounds tries t io u, Trying late hastyConfig 0 rounds tries t ∧
    101 = tries + 1 ∧ late t (.error io) u ∧ u ≤ millis 5000 ∧
    BusError.io refused.text = .io io.text ∧
    (unavailable io.kind = true → 0 + (Duration.fromSecs 4).nanos ≤ millis 5000) ∧
    t < millis 60000 := by
  have failed : establishStream late hastyConfig 0 101 (.error (.io refused.text))
      (0 + millis 5000) := by
    have tired : Loop (establishPolicy (Duration.fromSecs 4)) (connect late) 0 (0 + 101)
        (.error (.io refused.text)) (0 + millis 5000) :=
      Loop.tires (Rounds.begins (Nat.le_refl 0)) (late_connect (by decide))
        ⟨_, rfl, by decide +kernel⟩ (Nat.le_refl _) (by decide)
    exact tired
  rw [Nat.zero_add] at failed
  obtain ⟨rounds, tries, t, io, u, trying, count, tried, _, ended, same, patient, before⟩ :=
    gives_up late_sound failed
  refine ⟨rounds, tries, t, io, u, trying, count, tried, ended, same,
    fun kind => (patient kind).2 _ rfl, before _ fun t r u listens answer => ?_⟩
  rw [answer.2, if_neg (Nat.not_lt.mpr listens)]

end TokimoConnecting

import TokimoBus.Frame
import TokimoBus.SlotLedger

/-!
The socket files of one machine. Any number of brokers call `listen` and any number of apps
`bind_for_app`, on any paths; the files a call looks at can be changed by others between any two
of its system calls, and a process can end at any point. A socket is named by a number. A path
stands for one place in the file system, however it is spelled.
-/
namespace TokimoListening
open TokimoFrame LabelledRuns SlotLedger

abbrev SocketId := Nat
abbrev CallId := Nat

inductive File where
  | socket (n : SocketId)
  | regular
  | directory
  deriving DecidableEq

/-- `bind` gives a socket its file, `listen` lets others connect to it. -/
inductive SocketState where
  | bound
  | listening
  | closed
  deriving DecidableEq

inductive Probe where
  | connected
  | refused
  | notFound
  | failed (message : String)
  deriving DecidableEq

inductive CallPhase where
  | unused
  -- `Broker::listen`
  | exists (path : String)
  | probing (path : String)
  | removing (path : String)
  | making (path : String)
  -- `app_socket`
  | appDir (path : String)
  | appRemove (path : String)
  -- `UnixListener::bind`
  | binding (path : String)
  | opening (path : String) (n : SocketId)
  -- an app gets the `io::Error` as it is
  | done (result : Except BusError SocketId)

def CallPhase.path : CallPhase → Option String
  | .unused | .done _ => none
  | .exists path | .probing path | .removing path | .making path | .appDir path | .appRemove path
  | .binding path | .opening path _ => some path

structure Host where
  entry : String → Option File
  socket : SocketId → Option (String × SocketState)
  call : CallId → CallPhase

def Host.setCall (s : Host) (t : CallId) (p : CallPhase) : Host :=
  { s with call := Function.update s.call t p }

def Host.setEntry (s : Host) (path : String) (f : Option File) : Host :=
  { s with entry := Function.update s.entry path f }

def Host.setSocket (s : Host) (n : SocketId) (path : String) (st : SocketState) : Host :=
  { s with socket := Function.update s.socket n (some (path, st)) }

def Host.start : Host := ⟨fun _ => none, fun _ => none, fun _ => .unused⟩

def Host.Answers (s : Host) (path : String) (n : SocketId) : Prop :=
  s.entry path = some (.socket n) ∧ s.socket n = some (path, .listening)

instance (s : Host) (path : String) (n : SocketId) : Decidable (s.Answers path n) :=
  inferInstanceAs (Decidable (_ ∧ _))

def activeListener (path : String) : BusError :=
  .io ("Unix socket " ++ path ++ " is already bound by an active listener")

def failedCheck (path message : String) : BusError :=
  .io ("Failed to check Unix socket " ++ path ++ ": " ++ message)

def pipesUnsupported : BusError := .io "Named Pipes not supported on this platform"

inductive HostAct where
  -- `Broker::listen` and `check_and_cleanup_unix_socket`
  | listen (t : CallId) (socket : DataPlaneSocket)
  | exists (t : CallId) (seen : Bool)
  | probe (t : CallId) (path : String) (outcome : Probe)
  | remove (t : CallId) (path : String) (removed : Bool)
  | makeDirs (t : CallId)
  -- `BusListener::bind_for_app` and `app_socket`
  | bindForApp (t : CallId) (path : String)
  | appDirs (t : CallId)
  | appDirsFailed (t : CallId) (message : String)
  | appRemove (t : CallId) (path : String) (removed : Bool)
  -- `BusListener::bind`
  | bind (t : CallId) (path : String) (n : SocketId)
  | bindFailed (t : CallId) (message : String)
  | opened (t : CallId) (n : SocketId)
  | openFailed (t : CallId) (n : SocketId) (message : String)
  -- a listener goes away, `cleanup`, and what other programs do to files
  | close (n : SocketId)
  | cleanup (socket : DataPlaneSocket) (removed : Bool)
  | create (path : String) (directory : Bool)
  deriving DecidableEq

inductive HostStep : Host → HostAct → Host → Prop where
  | listen {s : Host} {t : CallId} {path : String} (new : s.call t = .unused) :
      HostStep s (.listen t (.unix path)) (s.setCall t (.exists path))
  | listenPipe {s : Host} {t : CallId} {name : String} (new : s.call t = .unused) :
      HostStep s (.listen t (.namedPipe name)) (s.setCall t (.done (.error pipesUnsupported)))
  | seen {s : Host} {t : CallId} {path : String} (here : s.call t = .exists path)
      (found : s.entry path ≠ none) : HostStep s (.exists t true) (s.setCall t (.probing path))
  -- `exists` is false too where the path cannot be looked at
  | unseen {s : Host} {t : CallId} {path : String} (here : s.call t = .exists path) :
      HostStep s (.exists t false) (s.setCall t (.making path))
  | connected {s : Host} {t : CallId} {path : String} {n : SocketId}
      (here : s.call t = .probing path) (answers : s.Answers path n) :
      HostStep s (.probe t path .connected) (s.setCall t (.done (.error (activeListener path))))
  -- what the file names is closed, not yet listening, or no socket at all
  | refused {s : Host} {t : CallId} {path : String} (here : s.call t = .probing path)
      (found : s.entry path ≠ none) (deaf : ∀ n, ¬ s.Answers path n) :
      HostStep s (.probe t path .refused) (s.setCall t (.removing path))
  | notFound {s : Host} {t : CallId} {path : String} (here : s.call t = .probing path)
      (absent : s.entry path = none) :
      HostStep s (.probe t path .notFound) (s.setCall t (.making path))
  | probeFailed {s : Host} {t : CallId} {path message : String} (here : s.call t = .probing path) :
      HostStep s (.probe t path (.failed message))
        (s.setCall t (.done (.error (failedCheck path message))))
  | removed {s : Host} {t : CallId} {path : String} {f : File} (here : s.call t = .removing path)
      (found : s.entry path = some f) (file : f ≠ .directory) :
      HostStep s (.remove t path true) ((s.setEntry path none).setCall t (.making path))
  -- the error of `remove_file` is dropped
  | notRemoved {s : Host} {t : CallId} {path : String} (here : s.call t = .removing path) :
      HostStep s (.remove t path false) (s.setCall t (.making path))
  | makeDirs {s : Host} {t : CallId} {path : String} (here : s.call t = .making path) :
      HostStep s (.makeDirs t) (s.setCall t (.binding path))
  | bindForApp {s : Host} {t : CallId} {path : String} (new : s.call t = .unused) :
      HostStep s (.bindForApp t path) (s.setCall t (.appDir path))
  | appDirs {s : Host} {t : CallId} {path : String} (here : s.call t = .appDir path) :
      HostStep s (.appDirs t) (s.setCall t (.appRemove path))
  | appDirsFailed {s : Host} {t : CallId} {path message : String}
      (here : s.call t = .appDir path) :
      HostStep s (.appDirsFailed t message) (s.setCall t (.done (.error (.io message))))
  | appRemoved {s : Host} {t : CallId} {path : String} {f : File}
      (here : s.call t = .appRemove path) (found : s.entry path = some f)
      (file : f ≠ .directory) :
      HostStep s (.appRemove t path true) ((s.setEntry path none).setCall t (.binding path))
  | appNotRemoved {s : Host} {t : CallId} {path : String} (here : s.call t = .appRemove path) :
      HostStep s (.appRemove t path false) (s.setCall t (.binding path))
  | bind {s : Host} {t : CallId} {path : String} {n : SocketId} (here : s.call t = .binding path)
      (absent : s.entry path = none) (new : s.socket n = none) :
      HostStep s (.bind t path n)
        (((s.setEntry path (some (.socket n))).setSocket n path .bound).setCall t
          (.opening path n))
  -- the path is taken, or it cannot be written to
  | bindFailed {s : Host} {t : CallId} {path message : String} (here : s.call t = .binding path) :
      HostStep s (.bindFailed t message) (s.setCall t (.done (.error (.io message))))
  | opened {s : Host} {t : CallId} {path : String} {n : SocketId}
      (here : s.call t = .opening path n) (up : s.socket n = some (path, .bound)) :
      HostStep s (.opened t n) ((s.setSocket n path .listening).setCall t (.done (.ok n)))
  | openFailed {s : Host} {t : CallId} {path message : String} {n : SocketId}
      (here : s.call t = .opening path n) (up : s.socket n = some (path, .bound)) :
      HostStep s (.openFailed t n message)
        ((s.setSocket n path .closed).setCall t (.done (.error (.io message))))
  | close {s : Host} {n : SocketId} {path : String} {st : SocketState}
      (found : s.socket n = some (path, st)) :
      HostStep s (.close n) (s.setSocket n path .closed)
  | cleaned {s : Host} {path : String} {f : File} (found : s.entry path = some f)
      (file : f ≠ .directory) :
      HostStep s (.cleanup (.unix path) true) (s.setEntry path none)
  | notCleaned {s : Host} {socket : DataPlaneSocket} : HostStep s (.cleanup socket false) s
  | create {s : Host} {path : String} {directory : Bool} (absent : s.entry path = none) :
      HostStep s (.create path directory)
        (s.setEntry path (some (if directory then .directory else .regular)))

variable {s s' : Host} {x : HostAct} {acts : List HostAct} {t t' : CallId} {n m : SocketId}
  {path : String} {st : SocketState}

abbrev HostRun (acts : List HostAct) (s : Host) : Prop := Run HostStep Host.start acts s

abbrev HostReachable (s : Host) : Prop := Reachable HostStep Host.start s

def fileTouch : HostAct → Option (String × Option File)
  | .remove _ path true | .appRemove _ path true | .cleanup (.unix path) true => some (path, none)
  | .bind _ path n => some (path, some (.socket n))
  | .create path directory => some (path, some (if directory then .directory else .regular))
  | _ => none

theorem entry_ledger : Ledger HostStep Host.entry fileTouch :=
  ledger_of fun step => by
    cases step with
    | @notCleaned socket => cases socket <;> rfl
    | _ => rfl

def Unlinks (path : String) (x : HostAct) : Prop := fileTouch x = some (path, none)

instance (path : String) (x : HostAct) : Decidable (Unlinks path x) :=
  inferInstanceAs (Decidable (_ = _))

theorem socket_step (h : HostStep s x s') (found : s.socket n = some (path, st)) :
    s'.socket n = some (path, st) ∨ st = .bound ∧ s'.socket n = some (path, .listening) ∨
      s'.socket n = some (path, .closed) := by
  cases h with
  | @bind t p m here absent new =>
    have apart : n ≠ m := by
      rintro rfl
      rw [new] at found
      cases found
    simp [Host.setCall, Host.setSocket, Host.setEntry, apart, found]
  | @opened t p m here up =>
    by_cases same : n = m
    · subst same
      rw [up] at found
      cases found
      simp [Host.setCall, Host.setSocket]
    · simp [Host.setCall, Host.setSocket, same, found]
  | @openFailed t p message m here up | @close m p st' up =>
    by_cases same : n = m
    · subst same
      rw [up] at found
      cases found
      simp [Host.setCall, Host.setSocket]
    · simp [Host.setCall, Host.setSocket, same, found]
  | _ => exact Or.inl found

theorem socket_path (h : HostStep s x s') (found : ∃ st, s.socket n = some (path, st)) :
    ∃ st, s'.socket n = some (path, st) := by
  obtain ⟨st, found⟩ := found
  rcases socket_step h found with same | ⟨_, later⟩ | later
  · exact ⟨_, same⟩
  · exact ⟨_, later⟩
  · exact ⟨_, later⟩

def Spent (n : SocketId) (s : Host) : Prop :=
  ∃ path st, s.socket n = some (path, st) ∧ st ≠ .bound

theorem spent_stable : Stable HostStep Host.start (Spent n) := by
  rintro s x s' _ step ⟨path, st, found, past⟩
  rcases socket_step step found with same | ⟨bound, _⟩ | closed
  · exact ⟨path, st, same, past⟩
  · exact absurd bound past
  · exact ⟨path, .closed, closed, by simp⟩

theorem opened_fresh {v w : Host} (step : HostStep v (.opened t n) w) : ¬ Spent n v := by
  cases step with
  | opened here up =>
    rintro ⟨p, st, found, past⟩
    rw [up] at found
    cases found
    exact past rfl

theorem opened_spends {v w : Host} (step : HostStep v (.opened t n) w) : Spent n w := by
  cases step with
  | @opened _ p here up =>
    exact ⟨p, .listening, by simp [Host.setCall, Host.setSocket], by simp⟩

theorem opened_once (run : HostRun acts s) {i j : Nat} (here : acts[i]? = some (.opened t n))
    (there : acts[j]? = some (.opened t' n)) : i = j := by
  refine at_most_once (fun x => ∃ t, x = .opened t n) (spent_stable (n := n)) ?_ ?_ run here ⟨t, rfl⟩ there
    ⟨t', rfl⟩
  · rintro v x w _ step ⟨t, rfl⟩
    exact opened_fresh step
  · rintro v x w _ step ⟨t, rfl⟩
    exact opened_spends step

theorem opened_spent (run : HostRun acts s) (mem : .opened t n ∈ acts) : Spent n s := by
  obtain ⟨i, here⟩ := List.mem_iff_getElem?.mp mem
  obtain ⟨v, w, before, step, rest⟩ := run_at run here
  exact stable_run spent_stable (reachable_step ⟨_, before⟩ step) rest (opened_spends step)

theorem entry_made (step : HostStep s x s') (now : s'.entry path = some (.socket n)) :
    s.entry path = some (.socket n) ∨ ∃ t, x = .bind t path n ∧ s.entry path = none := by
  by_cases touched : Touches fileTouch path x
  · obtain ⟨f, wrote⟩ := touched
    have left : s'.entry path = f := by
      rw [entry_ledger.write step wrote, Function.update_self]
    rw [now] at left
    subst left
    cases step with
    | bind here absent new =>
      simp only [fileTouch, Option.some.injEq, Prod.mk.injEq, File.socket.injEq] at wrote
      obtain ⟨rfl, rfl⟩ := wrote
      exact Or.inr ⟨_, rfl, absent⟩
    | @create path directory absent => cases directory <;> simp [fileTouch] at wrote
    | _ => simp [fileTouch] at wrote
  · rw [untouched_step entry_ledger step touched] at now
    exact Or.inl now

theorem bind_fresh {v w : Host} (step : HostStep v (.bind t path n) w) : v.socket n = none := by
  cases step with
  | bind here absent new => exact new

theorem bind_path {v w : Host} (step : HostStep v (.bind t path n) w) :
    ∃ st, w.socket n = some (path, st) := by
  cases step with
  | bind => exact ⟨.bound, by simp [Host.setCall, Host.setSocket]⟩

theorem entry_socket (reach : HostReachable s) :
    ∀ {path n}, s.entry path = some (.socket n) → ∃ st, s.socket n = some (path, st) := by
  refine reachable_invariant (p := fun s => ∀ {path n}, s.entry path = some (.socket n) →
    ∃ st, s.socket n = some (path, st)) ?_ ?_ reach
  · intro path n found
    cases found
  · intro v x w _ step ih path n now
    rcases entry_made step now with old | ⟨t, rfl, _⟩
    · exact socket_path step (ih old)
    · exact bind_path step

/-- The socket was bound to the path and is no longer what the path names. -/
def Lost (path : String) (n : SocketId) (s : Host) : Prop :=
  (∃ st, s.socket n = some (path, st)) ∧ s.entry path ≠ some (.socket n)

theorem lost_stable : Stable HostStep Host.start (Lost path n) := by
  rintro s x s' _ step ⟨bound, away⟩
  refine ⟨socket_path step bound, fun now => ?_⟩
  rcases entry_made step now with old | ⟨t, rfl, _⟩
  · exact away old
  · obtain ⟨st, found⟩ := bound
    cases step with
    | bind here absent new =>
      rw [new] at found
      cases found

theorem loses (step : HostStep s x s') (named : s.entry path = some (.socket n))
    (away : s'.entry path ≠ some (.socket n)) : Unlinks path x := by
  by_cases touched : Touches fileTouch path x
  · obtain ⟨f, wrote⟩ := touched
    cases step with
    | bind here absent new =>
      simp only [fileTouch, Option.some.injEq, Prod.mk.injEq] at wrote
      rw [← wrote.1, absent] at named
      cases named
    | create absent =>
      simp only [fileTouch, Option.some.injEq, Prod.mk.injEq] at wrote
      rw [← wrote.1, absent] at named
      cases named
    | removed | appRemoved | cleaned =>
      simp only [fileTouch, Option.some.injEq, Prod.mk.injEq] at wrote
      simp [Unlinks, fileTouch, wrote.1]
    | _ => simp [fileTouch] at wrote
  · rw [untouched_step entry_ledger step touched] at away
    exact absurd named away

theorem call_made {P : CallPhase → Prop} {Q : Prop} {d : CallId} {p : CallPhase}
    (made : t = d → P p → Q) (now : P ((s.setCall d p).call t)) : P (s.call t) ∨ Q :=
  moved_made made now

theorem call_back {P : CallPhase → Prop} {d : CallId} {p q : CallPhase} (here : s.call d = q)
    (same : P p → P q) (now : P ((s.setCall d p).call t)) : P (s.call t) :=
  moved_back here same now

theorem removing_made (step : HostStep s x s') (now : s'.call t = .removing path) :
    s.call t = .removing path ∨ x = .probe t path .refused ∧ ∀ n, ¬ s.Answers path n := by
  cases step with
  | @refused d p here found deaf =>
    refine call_made (P := fun q => q = .removing path) (fun same q => ?_) now
    cases q
    exact ⟨by rw [same], deaf⟩
  | close | cleaned | notCleaned | create => exact Or.inl now
  | listen | listenPipe | seen | unseen | connected | notFound | probeFailed | removed | notRemoved
  | makeDirs | bindForApp | appDirs | appDirsFailed | appRemoved | appNotRemoved | bind | bindFailed
  | opened | openFailed =>
    refine call_made (P := fun q => q = .removing path) (fun _ q => ?_) now
    cases q

theorem listening_made (step : HostStep s x s') (now : s'.socket n = some (path, .listening)) :
    s.socket n = some (path, .listening) ∨ ∃ t, x = .opened t n ∧ s.call t = .opening path n := by
  cases step with
  | @opened t p m here up =>
    by_cases same : n = m
    · subst same
      simp only [Host.setCall, Host.setSocket, Function.update_self, Option.some.injEq,
        Prod.mk.injEq, and_true] at now
      subst now
      exact Or.inr ⟨t, rfl, here⟩
    · simp only [Host.setCall, Host.setSocket, Function.update_of_ne same] at now
      exact Or.inl now
  | @bind t p m here absent new | @openFailed t p message m here up | @close m p st up =>
    by_cases same : n = m
    · subst same
      simp [Host.setCall, Host.setSocket, Host.setEntry] at now
    · simp only [Host.setCall, Host.setSocket, Host.setEntry, Function.update_of_ne same] at now
      exact Or.inl now
  | _ => exact Or.inl now

theorem answers_made (step : HostStep s x s') (now : s'.Answers path n) :
    s.Answers path n ∨ ∃ t, x = .opened t n := by
  obtain ⟨named, up⟩ := now
  rcases listening_made step up with listened | ⟨t, rfl, _⟩
  · rcases entry_made step named with old | ⟨t, rfl, _⟩
    · exact Or.inl ⟨old, listened⟩
    · cases step with
      | bind here absent new =>
        rw [new] at listened
        cases listened
  · exact Or.inr ⟨t, rfl⟩

theorem removing_probe (run : HostRun acts s) (here : s.call t = .removing path) :
    ∃ k : Nat, acts[k]? = some (.probe t path .refused) := by
  apply List.mem_iff_getElem?.mp
  exact label_of_gained (p := fun v : Host => v.call t = .removing path) (by simp [Host.start])
    (fun v x w step now => (removing_made step now).imp_right And.left) run here

theorem removing_early (run : HostRun acts s) :
    ∀ {t : CallId} {path : String} {n : SocketId}, s.call t = .removing path → s.Answers path n →
      ∃ k : Nat, acts[k]? = some (.probe t path .refused) ∧
        ∀ (l : Nat) (t' : CallId), acts[l]? = some (.opened t' n) → k < l := by
  induction run with
  | nil =>
    intro t path n here
    cases here
  | @snoc acts v w x before last ih =>
    intro t path n here answers
    have run := before.snoc last
    rcases removing_made last here with waited | ⟨rfl, deaf⟩
    · rcases answers_made last answers with answered | ⟨d, rfl⟩
      · obtain ⟨k, probed, early⟩ := ih waited answered
        have inside := (List.getElem?_eq_some_iff.mp probed).1
        refine ⟨k, by rwa [List.getElem?_append_left inside], fun l t' opened => ?_⟩
        by_cases short : l < acts.length
        · rw [List.getElem?_append_left short] at opened
          exact early l t' opened
        · omega
      · obtain ⟨k, probed⟩ := removing_probe before waited
        have inside := (List.getElem?_eq_some_iff.mp probed).1
        refine ⟨k, by rwa [List.getElem?_append_left inside], fun l t' opened => ?_⟩
        have here : (acts ++ [.opened d n])[acts.length]? = some (.opened d n) := by simp
        rw [opened_once run opened here]
        exact inside
    · rcases answers_made last answers with answered | ⟨d, same⟩
      · exact absurd answered (deaf n)
      · cases same

theorem known_stable : Stable HostStep Host.start fun s => s.socket n ≠ none := by
  intro s x s' _ step known
  obtain ⟨⟨path, st⟩, found⟩ := Option.ne_none_iff_exists'.mp known
  rcases socket_step step found with same | ⟨_, later⟩ | later
  · simp [same]
  · simp [later]
  · simp [later]

theorem bound_once {path' : String} (run : HostRun acts s) {i j : Nat}
    (here : acts[i]? = some (.bind t path n)) (there : acts[j]? = some (.bind t' path' n)) :
    i = j := by
  refine at_most_once (fun x => ∃ t path, x = .bind t path n) (known_stable (n := n)) ?_ ?_ run
    here ⟨t, path, rfl⟩ there ⟨t', path', rfl⟩
  · rintro v x w _ step ⟨t, path, rfl⟩ known
    exact known (bind_fresh step)
  · rintro v x w _ step ⟨t, path, rfl⟩
    cases step with
    | bind => simp [Host.setCall, Host.setSocket]

theorem remove_from {v w : Host} {removed : Bool} (step : HostStep v (.remove t path removed) w) :
    v.call t = .removing path := by
  cases step <;> assumption

theorem socket_made (step : HostStep s x s') (now : s'.socket n = some (path, st)) :
    (∃ st, s.socket n = some (path, st)) ∨ s'.entry path = some (.socket n) := by
  cases step with
  | @bind t p m here absent new =>
    by_cases same : n = m
    · subst same
      simp only [Host.setCall, Host.setSocket, Function.update_self, Option.some.injEq,
        Prod.mk.injEq] at now
      simp [Host.setCall, Host.setSocket, Host.setEntry, now.1]
    · simp only [Host.setCall, Host.setSocket, Host.setEntry, Function.update_of_ne same] at now
      exact Or.inl ⟨st, now⟩
  | @opened t p m here up | @openFailed t p message m here up | @close m p st up =>
    by_cases same : n = m
    · subst same
      simp only [Host.setCall, Host.setSocket, Function.update_self, Option.some.injEq,
        Prod.mk.injEq] at now
      exact Or.inl ⟨_, by rw [up, now.1]⟩
    · simp only [Host.setCall, Host.setSocket, Function.update_of_ne same] at now
      exact Or.inl ⟨_, now⟩
  | _ => exact Or.inl ⟨st, now⟩

theorem closed_stable :
    Stable HostStep Host.start fun s => s.socket n = some (path, .closed) := by
  intro s x s' _ step closed
  rcases socket_step step closed with same | ⟨bound, _⟩ | later
  · exact same
  · cases bound
  · exact later

theorem remover_early {j : Nat} {v w : Host} (before : HostRun (acts.take j) v)
    (step : HostStep v (.remove t path true) w) (named : v.entry path = some (.socket n))
    (up : ∀ st, v.socket n = some (path, st) → st ≠ .closed) :
    ∃ k < j, acts[k]? = some (.probe t path .refused) ∧
      ∀ (l : Nat) (d : CallId), acts[l]? = some (.opened d n) → k < l := by
  have waiting := remove_from step
  obtain ⟨st, found⟩ := entry_socket ⟨_, before⟩ named
  have late : ∀ {k l : Nat} {d : CallId}, k < j → acts[l]? = some (.opened d n) →
      ((acts.take j)[l]? = some (.opened d n) → k < l) → k < l := by
    intro k l d short opened early
    by_cases upto : l < j
    · exact early (by rw [List.getElem?_take_of_lt upto, opened])
    · omega
  cases st with
  | listening =>
    obtain ⟨k, probed, early⟩ := removing_early before waiting ⟨named, found⟩
    obtain ⟨short, probed⟩ := take_index probed
    exact ⟨k, short, probed, fun l d opened => late short opened (early l d)⟩
  | bound =>
    obtain ⟨k, probed⟩ := removing_probe before waiting
    obtain ⟨short, probed⟩ := take_index probed
    refine ⟨k, short, probed, fun l d opened => late short opened fun sooner => ?_⟩
    obtain ⟨p, st, there, past⟩ := opened_spent before (List.mem_of_getElem? sooner)
    rw [found] at there
    cases there
    exact absurd rfl past
  | closed => exact absurd rfl (up _ found)

/-- A listening socket is no longer what its path names if and only if the file was taken away
    after it was bound: by an app, by a cleanup, or by a broker whose probe was refused before the
    socket listened. -/
theorem listener_lost_iff (run : HostRun acts s) {i : Nat}
    (made : acts[i]? = some (.bind t path n)) (up : s.socket n = some (path, .listening)) :
    s.entry path ≠ some (.socket n) ↔
      ∃ j x, i < j ∧ acts[j]? = some x ∧ Unlinks path x ∧
        ∀ t', x = .remove t' path true → ∃ k < j, acts[k]? = some (.probe t' path .refused) ∧
          ∀ l d, acts[l]? = some (.opened d n) → k < l := by
  constructor
  · intro away
    have lost : Lost path n s := ⟨⟨_, up⟩, away⟩
    obtain ⟨j, x, v, w, there, before, step, rest, kept, gone⟩ :=
      gained_at (p := Lost path n) (by rintro ⟨⟨st, found⟩, _⟩; cases found) run lost
    have named : v.entry path = some (.socket n) := by
      by_contra other
      obtain ⟨⟨st, found⟩, away⟩ := gone
      rcases socket_made step found with old | new
      · exact kept ⟨old, other⟩
      · exact away new
    have unlinks := loses step named gone.2
    refine ⟨j, x, ?_, there, unlinks, ?_⟩
    · obtain ⟨a, mem, d, rfl⟩ := event_of_gained (fun a => ∃ d, a = .bind d path n)
        (p := fun v : Host => v.entry path = some (.socket n)) (by simp [Host.start])
        (fun v x w step now => (entry_made step now).imp_right fun ⟨d, same, _⟩ => ⟨d, same⟩)
        before named
      obtain ⟨i', short, made'⟩ := mem_take_index mem
      rwa [bound_once run made made']
    · rintro t' rfl
      refine remover_early before step named fun st found closed => ?_
      subst closed
      have ended : w.socket n = some (path, .closed) := closed_stable _ _ _ ⟨_, before⟩ step found
      have still := stable_run closed_stable (reachable_step ⟨_, before⟩ step) rest ended
      rw [up] at still
      cases still
  · rintro ⟨j, x, order, there, unlinks, _⟩
    obtain ⟨v, w, upto, step, rest, bound⟩ :=
      holds_between (fun _ _ _ _ step found => socket_path step found) run made there order
        fun v w _ step => bind_path step
    have gone : w.entry path = none := by rw [entry_ledger.write step unlinks, Function.update_self]
    have lost : Lost path n w := ⟨socket_path step bound, by simp [gone]⟩
    exact (stable_run lost_stable (reachable_step ⟨_, upto⟩ step) rest lost).2

def racePath : String := "/run/tokimo-bus.sock"

/-- Two brokers start on one path, where a file was left behind. -/
def raceActs : List HostAct :=
  [.create racePath false, .listen 0 (.unix racePath), .listen 1 (.unix racePath), .exists 0 true,
   .exists 1 true, .probe 0 racePath .refused, .probe 1 racePath .refused,
   .remove 0 racePath true, .makeDirs 0, .bind 0 racePath 0, .opened 0 0,
   .remove 1 racePath true, .makeDirs 1, .bind 1 racePath 1, .opened 1 1]

theorem race_run : ∃ s, HostRun raceActs s ∧ s.call 0 = .done (.ok 0) ∧ s.call 1 = .done (.ok 1) ∧
    s.socket 0 = some (racePath, .listening) ∧ s.entry racePath = some (.socket 1) := by
  have regular : ∀ (s : Host), s.entry racePath = some .regular → ∀ n, ¬ s.Answers racePath n := by
    rintro s found n ⟨named, _⟩
    rw [found] at named
    cases named
  exact ⟨_, run_cons (.create rfl) <| run_cons (.listen rfl) <| run_cons (.listen rfl) <|
    run_cons (.seen rfl (by decide)) <| run_cons (.seen rfl (by decide)) <|
    run_cons (.refused rfl (by decide) (regular _ rfl)) <|
    run_cons (.refused rfl (by decide) (regular _ rfl)) <|
    run_cons (.removed rfl rfl (by decide)) <| run_cons (.makeDirs rfl) <|
    run_cons (.bind rfl rfl rfl) <| run_cons (.opened rfl rfl) <|
    run_cons (.removed rfl rfl (by decide)) <| run_cons (.makeDirs rfl) <|
    run_cons (.bind rfl rfl rfl) <| run_cons (.opened rfl rfl) Run.nil, rfl, rfl, rfl, rfl⟩

theorem race_lost : ∃ s, HostRun raceActs s ∧ s.call 0 = .done (.ok 0) ∧
    s.entry racePath ≠ some (.socket 0) := by
  obtain ⟨s, run, first, _, up, _⟩ := race_run
  refine ⟨s, run, first, (listener_lost_iff run (i := 9) (t := 0) rfl up).mpr ?_⟩
  refine ⟨11, .remove 1 racePath true, by decide, rfl, by decide, ?_⟩
  rintro t' same
  cases same
  refine ⟨6, by decide, rfl, fun l d opened => ?_⟩
  have second : raceActs[10]? = some (.opened 0 0) := rfl
  have same : l = 10 := opened_once run opened second
  omega

def Host.Busy (s : Host) (path : String) : Prop := ∃ t, (s.call t).path = some path

/-- No two calls are at work on one path at a time, a cleanup waits for them, and apps and
    cleanups keep away from the path of a listener. -/
def Apart (s : Host) : HostAct → Prop
  | .listen _ (.unix path) => ¬ s.Busy path
  | .bindForApp _ path | .cleanup (.unix path) true => ¬ s.Busy path ∧ ∀ n, ¬ s.Answers path n
  | _ => True

/-- The path whose file the call takes away without looking at it again. -/
def CallPhase.clears : CallPhase → Option String
  | .removing path | .appDir path | .appRemove path => some path
  | _ => none

theorem clears_path {p : CallPhase} (here : p.clears = some path) : p.path = some path := by
  cases p <;> simp [CallPhase.clears] at here <;> simp [CallPhase.path, here]

structure Orderly (s : Host) : Prop where
  alone : ∀ {t t' path}, (s.call t).path = some path → (s.call t').path = some path → t = t'
  clears : ∀ {t path n}, (s.call t).clears = some path → ¬ s.Answers path n
  opens : ∀ {t path n}, s.call t = .opening path n → s.entry path = some (.socket n)
  served : ∀ {path n}, s.socket n = some (path, .listening) → s.entry path = some (.socket n)

theorem path_made (step : HostStep s x s') (now : (s'.call t).path = some path) :
    (s.call t).path = some path ∨ x = .listen t (.unix path) ∨ x = .bindForApp t path := by
  cases step with
  | @listen d p new =>
    exact call_made (P := fun q => q.path = some path) (fun same q => by
      cases q
      exact Or.inl (by rw [same])) now
  | @bindForApp d p new =>
    exact call_made (P := fun q => q.path = some path) (fun same q => by
      cases q
      exact Or.inr (by rw [same])) now
  | close | cleaned | notCleaned | create => exact Or.inl now
  | listenPipe here | seen here | unseen here | connected here | refused here | notFound here
  | probeFailed here | removed here | notRemoved here | makeDirs here | appDirs here
  | appDirsFailed here | appRemoved here | appNotRemoved here | bind here | bindFailed here
  | opened here | openFailed here =>
    exact Or.inl (call_back (P := fun q => q.path = some path) here (by simp [CallPhase.path]) now)

theorem clears_made (step : HostStep s x s') (now : (s'.call t).clears = some path) :
    (s.call t).clears = some path ∨ (x = .probe t path .refused ∧ ∀ n, ¬ s.Answers path n) ∨
      x = .bindForApp t path := by
  cases step with
  | @refused d p here found deaf =>
    exact call_made (P := fun q => q.clears = some path) (fun same q => by
      cases q
      exact Or.inl ⟨by rw [same], deaf⟩) now
  | @bindForApp d p new =>
    exact call_made (P := fun q => q.clears = some path) (fun same q => by
      cases q
      exact Or.inr (by rw [same])) now
  | close | cleaned | notCleaned | create => exact Or.inl now
  | listen here | listenPipe here | seen here | unseen here | connected here | notFound here
  | probeFailed here | removed here | notRemoved here | makeDirs here | appDirs here
  | appDirsFailed here | appRemoved here | appNotRemoved here | bind here | bindFailed here
  | opened here | openFailed here =>
    exact Or.inl (call_back (P := fun q => q.clears = some path) here
      (by simp [CallPhase.clears]) now)

theorem opening_made (step : HostStep s x s') (now : s'.call t = .opening path n) :
    s.call t = .opening path n ∨ x = .bind t path n := by
  cases step with
  | @bind d p m here absent new =>
    exact call_made (P := fun q => q = .opening path n) (fun same q => by
      cases q
      rw [same]) now
  | close | cleaned | notCleaned | create => exact Or.inl now
  | listen here | listenPipe here | seen here | unseen here | connected here | refused here
  | notFound here | probeFailed here | removed here | notRemoved here | makeDirs here
  | bindForApp here | appDirs here | appDirsFailed here | appRemoved here | appNotRemoved here
  | bindFailed here | opened here | openFailed here =>
    exact Or.inl (call_back (P := fun q => q = .opening path n) here (by simp) now)

theorem unlinks_from (step : HostStep s x s') (unlinks : Unlinks path x) :
    (∃ t, (s.call t).clears = some path) ∨ x = .cleanup (.unix path) true := by
  cases step with
  | @removed t p f here | @appRemoved t p f here =>
    obtain rfl : p = path := by simpa [Unlinks, fileTouch] using unlinks
    exact Or.inl ⟨t, by rw [here]; rfl⟩
  | @cleaned p f found file =>
    obtain rfl : p = path := by simpa [Unlinks, fileTouch] using unlinks
    exact Or.inr rfl
  | _ => simp [Unlinks, fileTouch] at unlinks

theorem orderly_start : Orderly Host.start := by
  constructor <;> simp [Host.start, CallPhase.path, CallPhase.clears]

theorem orderly_named (orderly : Orderly s) (step : HostStep s x s') (apart : Apart s x)
    (named : s.entry path = some (.socket n))
    (used : s.Answers path n ∨ ∃ t, s.call t = .opening path n) :
    s'.entry path = some (.socket n) := by
  by_contra away
  rcases unlinks_from step (loses step named away) with ⟨d, clears⟩ | rfl
  · rcases used with answers | ⟨t, opening⟩
    · exact orderly.clears clears answers
    · have busy : (s.call t).path = some path := by
        rw [opening]
        rfl
      rw [orderly.alone (clears_path clears) busy, opening] at clears
      cases clears
  · rcases used with answers | ⟨t, opening⟩
    · exact apart.2 n answers
    · exact apart.1 ⟨t, by rw [opening]; rfl⟩

theorem orderly_step (orderly : Orderly s) (step : HostStep s x s') (apart : Apart s x) :
    Orderly s' where
  alone := by
    intro t t' path here there
    rcases path_made step here with old | new
    · rcases path_made step there with old' | new'
      · exact orderly.alone old old'
      · rcases new' with rfl | rfl
        · exact absurd ⟨t, old⟩ apart
        · exact absurd ⟨t, old⟩ apart.1
    · rcases path_made step there with old' | new'
      · rcases new with rfl | rfl
        · exact absurd ⟨t', old'⟩ apart
        · exact absurd ⟨t', old'⟩ apart.1
      · rcases new with rfl | rfl <;> rcases new' with same | same <;> cases same <;> rfl
  clears := by
    intro t path n here answers
    rcases listening_made step answers.2 with listened | ⟨d, rfl, opening⟩
    · have answered : s.Answers path n := ⟨orderly.served listened, listened⟩
      rcases clears_made step here with old | ⟨rfl, deaf⟩ | rfl
      · exact orderly.clears old answered
      · exact deaf n answered
      · exact apart.2 n answered
    · rcases clears_made step here with old | ⟨same, _⟩ | same
      · have busy : (s.call d).path = some path := by
          rw [opening]
          rfl
        rw [orderly.alone (clears_path old) busy, opening] at old
        cases old
      · cases same
      · cases same
  opens := by
    intro t path n here
    rcases opening_made step here with old | rfl
    · exact orderly_named orderly step apart (orderly.opens old) (Or.inr ⟨t, old⟩)
    · cases step with
      | bind => simp [Host.setCall, Host.setSocket, Host.setEntry]
  served := by
    intro path n up
    rcases listening_made step up with old | ⟨t, rfl, opening⟩
    · have named := orderly.served old
      exact orderly_named orderly step apart named (Or.inl ⟨named, old⟩)
    · exact orderly_named orderly step apart (orderly.opens opening) (Or.inr ⟨t, opening⟩)

theorem orderly_run (run : Run (Guarded HostStep Apart) Host.start acts s) : Orderly s :=
  run_history (p := fun _ s => Orderly s) orderly_start
    (fun _ _ _ _ _ last orderly => orderly_step orderly last.1 last.2) run

/-- Where the calls on a path take turns, who listens there is reached there, and is alone. -/
theorem one_listener (run : Run (Guarded HostStep Apart) Host.start acts s)
    (up : s.socket n = some (path, .listening)) :
    s.Answers path n ∧ ∀ m, s.socket m = some (path, .listening) → m = n := by
  have named := (orderly_run run).served up
  refine ⟨⟨named, up⟩, fun m other => ?_⟩
  have same := (orderly_run run).served other
  rw [named] at same
  cases same
  rfl

def turnActs : List HostAct :=
  [.listen 0 (.unix racePath), .exists 0 false, .makeDirs 0, .bind 0 racePath 0, .opened 0 0,
   .listen 1 (.unix racePath), .exists 1 true, .probe 1 racePath .connected, .close 0,
   .listen 2 (.unix racePath), .exists 2 true, .probe 2 racePath .refused,
   .remove 2 racePath true, .makeDirs 2, .bind 2 racePath 1, .opened 2 1]

theorem turn_run : ∃ s, Run (Guarded HostStep Apart) Host.start turnActs s ∧
    s.call 1 = .done (.error (activeListener racePath)) ∧ s.call 2 = .done (.ok 1) ∧
    s.socket 1 = some (racePath, .listening) := by
  have closed : ∀ (s : Host), s.entry racePath = some (.socket 0) →
      s.socket 0 = some (racePath, .closed) → ∀ n, ¬ s.Answers racePath n := by
    rintro s found closed n ⟨named, up⟩
    rw [found] at named
    cases named
    rw [closed] at up
    cases up
  exact ⟨_, run_cons ⟨.listen rfl, by rintro ⟨t, busy⟩; cases busy⟩ <|
    run_cons ⟨.unseen rfl, trivial⟩ <| run_cons ⟨.makeDirs rfl, trivial⟩ <|
    run_cons ⟨.bind rfl rfl rfl, trivial⟩ <| run_cons ⟨.opened rfl rfl, trivial⟩ <|
    run_cons ⟨.listen rfl, by rintro ⟨_ | t, busy⟩ <;> cases busy⟩ <|
    run_cons ⟨.seen rfl (by decide), trivial⟩ <|
    run_cons ⟨.connected rfl (n := 0) ⟨rfl, rfl⟩, trivial⟩ <|
    run_cons ⟨@HostStep.close _ 0 racePath .listening rfl, trivial⟩ <|
    run_cons ⟨.listen rfl, by rintro ⟨_ | _ | t, busy⟩ <;> cases busy⟩ <|
    run_cons ⟨.seen rfl (by decide), trivial⟩ <|
    run_cons ⟨.refused rfl (by decide) (closed _ rfl rfl), trivial⟩ <|
    run_cons ⟨.removed rfl rfl (by decide), trivial⟩ <| run_cons ⟨.makeDirs rfl, trivial⟩ <|
    run_cons ⟨.bind rfl rfl rfl, trivial⟩ <| run_cons ⟨.opened rfl rfl, trivial⟩ Run.nil,
    rfl, rfl, rfl⟩

theorem turn_served : ∃ s, Run (Guarded HostStep Apart) Host.start turnActs s ∧
    s.Answers racePath 1 ∧ ∀ m, s.socket m = some (racePath, .listening) → m = 1 := by
  obtain ⟨s, run, _, _, up⟩ := turn_run
  exact ⟨s, run, one_listener run up⟩

end TokimoListening

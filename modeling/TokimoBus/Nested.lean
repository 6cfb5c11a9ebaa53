import TokimoBus.BoundedStream
import TokimoBus.EndToEnd

/-!
Apps whose handlers call each other, over streams that hold a bounded number of bytes. A handler
is any finite program that waits for nothing but its own invokes; it may have several of them
under way, wait for any one of them to return, and drop others. An invoke moves while its future
is polled: while the handler that owns it waits for it, or always, if other code of the app owns
it. Nobody connects, no connection breaks, and no stream fails.
-/
namespace TokimoNested
open TokimoFrame TokimoOutbound TokimoBroker TokimoSession TokimoClient TokimoSystem TokimoChannel
open LabelledRuns BoundedStream

abbrev Slot := Nat

/-- A handler with these futures of `invoke` at hand. -/
inductive Program : Finset Slot → Type where
  | ret (result : Outcome) : Program ∅
  | invoke {live : Finset Slot} (n : Slot) (new : n ∉ live) (x : InvokeArgs)
      (next : Program (insert n live)) : Program live
  | wait {live : Finset Slot} (slots : Finset Slot) (some : slots.Nonempty) (own : slots ⊆ live)
      (next : (n : Slot) → n ∈ slots → Outcome → Program (live.erase n)) : Program live
  | drop {live : Finset Slot} (n : Slot) (own : n ∈ live) (next : Program (live.erase n)) :
      Program live

def Program.waits {live : Finset Slot} : Program live → Finset Slot
  | .wait slots _ _ _ => slots
  | _ => ∅

/-- What a running handler has left to do, and which invoke each of its futures is. -/
structure Activation where
  live : Finset Slot
  program : Program live
  id : Slot → InvokeId

abbrev Programs := ConnId → HandlerId → Bytes → CallerCtx → Program ∅

/-- How many bytes each stream holds at most. -/
structure Capacity where
  up : ConnId → Nat
  down : ConnId → Nat

structure Nested where
  system : System
  up : ConnId → Stream
  down : ConnId → Stream
  activation : ConnId → TaskId → Option Activation

def Nested.start (s : System) : Nested :=
  ⟨s, fun _ => Stream.empty, fun _ => Stream.empty, fun _ _ => none⟩

def size (env : Env) (f : BusFrame) : Nat := (frameBytes env.toVecNamed f).length

def applyAt (op : Stream → Stream) (streams : ConnId → Stream) :
    Option (ConnId × BusFrame) → ConnId → Stream
  | some (k, _) => Function.update streams k (op (streams k))
  | none => streams

def Nested.setSystem (s : Nested) (v : System) : Nested := { s with system := v }

def Nested.setUp (s : Nested) (k : ConnId) (x : Stream) : Nested :=
  { s with up := Function.update s.up k x }

def Nested.setDown (s : Nested) (k : ConnId) (x : Stream) : Nested :=
  { s with down := Function.update s.down k x }

def Nested.setActivation (s : Nested) (k : ConnId) (t : TaskId) (a : Option Activation) : Nested :=
  { s with activation := Function.update s.activation k (Function.update (s.activation k) t a) }

/-- A step of the system, with the last byte of the frame that it writes and the frame that it
    reads. -/
def Nested.moved (s : Nested) (x : SystemAct) (v : System) : Nested where
  system := v
  up := applyAt Stream.deliver (applyAt Stream.finish s.up (x.clientIO clientWrites))
    (x.brokerIO brokerReads)
  down := applyAt Stream.deliver (applyAt Stream.finish s.down (x.brokerIO brokerWrites))
    (x.clientIO clientReads)
  activation := s.activation

def Intact : WriterAct → Prop
  | .recv _ | .wrote _ => True
  | _ => False

def Undisturbed : SystemAct → Prop
  | .broker (.accept _) | .broker (.hangup _) => False
  | .broker (.writer _ x) => Intact x
  | .client _ (.greet _) | .client _ (.greetBroken _) | .client _ .hangup => False
  | .client _ (.writer x) => Intact x
  | _ => True

def Polled (s : Nested) (k : ConnId) (i : InvokeId) : Prop :=
  ∀ t act n, s.activation k t = some act → n ∈ act.live → act.id n = i → n ∈ act.program.waits

def Unowned (s : Nested) (k : ConnId) (i : InvokeId) : Prop :=
  ∀ t act n, s.activation k t = some act → n ∈ act.live → act.id n ≠ i

def Free (s : Nested) : SystemAct → Prop
  | .client _ (.handle _ _ _) | .client _ (.handled _ _ _ _) => False
  | .client k (.number i _) | .client k (.register i _) | .client k (.send i _)
  | .client k (.sendClosed i) | .client k (.complete i _) | .client k (.senderGone i) =>
    Polled s k i
  | .client k (.cancel i) => Unowned s k i
  | _ => True

/-- There is room for the last byte of the frame that the step writes, and the frame that it
    reads has come whole. -/
structure Carried (env : Env) (cap : Capacity) (s : Nested) (x : SystemAct) : Prop where
  up : ∀ k f, x.clientIO clientWrites = some (k, f) →
    CanFinish (cap.up k) (size env) (s.up k) f
  down : ∀ k f, x.brokerIO brokerWrites = some (k, f) →
    CanFinish (cap.down k) (size env) (s.down k) f
  atBroker : ∀ k f, x.brokerIO brokerReads = some (k, f) → Whole (size env) (s.up k) f
  atClient : ∀ k f, x.clientIO clientReads = some (k, f) → Whole (size env) (s.down k) f

def midway : InvokePhase → Bool
  | .register _ | .send _ => true
  | _ => false

inductive NestedAct where
  | system (x : SystemAct)
  | fillUp (k : ConnId)
  | fillDown (k : ConnId)
  | drainUp (k : ConnId)
  | drainDown (k : ConnId)
  | handle (k : ConnId) (t : TaskId) (inv : Invoke) (h : HandlerId)
  | invoke (k : ConnId) (t : TaskId) (n : Slot) (i : InvokeId) (x : InvokeArgs)
  | resume (k : ConnId) (t : TaskId) (n : Slot) (result : Outcome)
  | release (k : ConnId) (t : TaskId) (n : Slot)
  | drop (k : ConnId) (t : TaskId) (n : Slot) (i : InvokeId)
  | ret (k : ConnId) (t : TaskId) (inv : Invoke) (h : HandlerId) (result : Outcome)

inductive NestedStep (env : Env) (debug : BusFrame → String) (programs : Programs)
    (cap : Capacity) : Nested → NestedAct → Nested → Prop where
  | system {s : Nested} {x : SystemAct} {v : System}
      (one : SystemStep env debug s.system x v) (undisturbed : Undisturbed x) (free : Free s x)
      (carried : Carried env cap s x) :
      NestedStep env debug programs cap s (.system x) (s.moved x v)
  | fillUp {s : Nested} {k : ConnId} {f : BusFrame}
      (busy : (s.system.client k).out.writer = .writing f)
      (room : CanFill (cap.up k) (size env) (s.up k) f) :
      NestedStep env debug programs cap s (.fillUp k) (s.setUp k (s.up k).fill)
  | fillDown {s : Nested} {k : ConnId} {f : BusFrame}
      (busy : (s.system.world.out k).writer = .writing f)
      (room : CanFill (cap.down k) (size env) (s.down k) f) :
      NestedStep env debug programs cap s (.fillDown k) (s.setDown k (s.down k).fill)
  | drainUp {s : Nested} {k : ConnId} {ses : Session}
      (reading : s.system.world.phase k = .live ses .read)
      (bytes : CanDrain (size env) (s.up k) (s.system.toBroker k)) :
      NestedStep env debug programs cap s (.drainUp k) (s.setUp k (s.up k).drain)
  | drainDown {s : Nested} {k : ConnId} (reading : (s.system.client k).runner = .reading)
      (bytes : CanDrain (size env) (s.down k) (s.system.toClient k)) :
      NestedStep env debug programs cap s (.drainDown k) (s.setDown k (s.down k).drain)
  | handle {s : Nested} {k : ConnId} {t : TaskId} {inv : Invoke} {h : HandlerId} {v : System}
      (one : SystemStep env debug s.system (.client k (.handle t inv h)) v) :
      NestedStep env debug programs cap s (.handle k t inv h) ((s.setSystem v).setActivation k t
        (some ⟨∅, programs k h inv.payload inv.caller, fun _ => 0⟩))
  | invoke {s : Nested} {k : ConnId} {t : TaskId} {live : Finset Slot} {n : Slot}
      {new : n ∉ live} {x : InvokeArgs} {next : Program (insert n live)} {id : Slot → InvokeId}
      {i : InvokeId} {v : System}
      (here : s.activation k t = some ⟨live, .invoke n new x next, id⟩)
      (one : SystemStep env debug s.system (.client k (.begin i x)) v) :
      NestedStep env debug programs cap s (.invoke k t n i x)
        ((s.setSystem v).setActivation k t
          (some ⟨insert n live, next, Function.update id n i⟩))
  -- a poll does not stop between two awaits, so no other future is left in the middle of one
  | resume {s : Nested} {k : ConnId} {t : TaskId} {live slots : Finset Slot}
      {some' : slots.Nonempty} {own : slots ⊆ live}
      {next : (n : Slot) → n ∈ slots → Outcome → Program (live.erase n)} {id : Slot → InvokeId}
      {n : Slot} {result : Outcome} (mem : n ∈ slots)
      (here : s.activation k t = some ⟨live, .wait slots some' own next, id⟩)
      (ready : (s.system.client k).invokePhase (id n) = .done result)
      (polled : ∀ m ∈ slots, midway ((s.system.client k).invokePhase (id m)) = false) :
      NestedStep env debug programs cap s (.resume k t n result)
        (s.setActivation k t (some ⟨live.erase n, next n mem result, id⟩))
  | release {s : Nested} {k : ConnId} {t : TaskId} {live : Finset Slot} {n : Slot}
      {own : n ∈ live} {next : Program (live.erase n)} {id : Slot → InvokeId} {result : Outcome}
      (here : s.activation k t = some ⟨live, .drop n own next, id⟩)
      (ready : (s.system.client k).invokePhase (id n) = .done result) :
      NestedStep env debug programs cap s (.release k t n)
        (s.setActivation k t (some ⟨live.erase n, next, id⟩))
  | drop {s : Nested} {k : ConnId} {t : TaskId} {live : Finset Slot} {n : Slot}
      {own : n ∈ live} {next : Program (live.erase n)} {id : Slot → InvokeId} {v : System}
      (here : s.activation k t = some ⟨live, .drop n own next, id⟩)
      (one : SystemStep env debug s.system (.client k (.cancel (id n))) v) :
      NestedStep env debug programs cap s (.drop k t n (id n))
        ((s.setSystem v).setActivation k t (some ⟨live.erase n, next, id⟩))
  | ret {s : Nested} {k : ConnId} {t : TaskId} {inv : Invoke} {h : HandlerId} {result : Outcome}
      {id : Slot → InvokeId} {v : System}
      (here : s.activation k t = some ⟨∅, .ret result, id⟩)
      (one : SystemStep env debug s.system (.client k (.handled t inv h result)) v) :
      NestedStep env debug programs cap s (.ret k t inv h result)
        ((s.setSystem v).setActivation k t none)

/-- A connected app: both ends are in their loops, and nothing is under way on the streams. -/
structure Joined (s : System) (k : ConnId) : Prop where
  phase : ∃ ses, s.world.phase k = .live ses .read
  runner : (s.client k).runner = .reading
  up : (s.client k).out.writer = .idle ∧ (s.client k).out.queue = [] ∧ s.toBroker k = []
  down : (s.world.out k).writer = .idle ∧ (s.world.out k).queue = [] ∧ s.toClient k = []

structure Absent (s : System) (k : ConnId) : Prop where
  phase : s.world.phase k = .unused
  runner : (s.client k).runner = .unconnected

/-- Any number of apps are connected, each under a generation of its own, and no handler runs. -/
structure Assembled (s : System) : Prop where
  apps : ∀ k, Joined s k ∨ Absent s k
  generations : TokimoIdentity.Apart s.world
  tasks : ∀ k t inv h, (s.client k).task t ≠ .running inv h

def Pending (s : Nested) : Prop := ∃ k i, ((s.system.client k).invokePhase i).active = true

def runsOn : ClientAct → Bool
  | .ping | .pingClosed | .shutdownFrame | .invoke _ _ | .response _ _ | .ignore _ | .writer _
  | .unhandled _ _ | .reply _ _ | .replyClosed _ | .number _ _ | .register _ _ | .send _ _
  | .sendClosed _ | .complete _ _ | .senderGone _ => true
  | _ => false

/-- The step is one of a reader or its main loop, of a writer, of the task that the broker has
    spawned for an Invoke of an app, of a task of `dispatch_invoke`, its handler, or the future of
    an invoke. Neither the timeouts are among them nor what an app or the host begins. -/
def Moves (s : Nested) : NestedAct → Prop
  | .system (.client _ b) => runsOn b = true
  | .system (.broker a) => (TokimoConfinement.readsFor a ≠ none ∨ ∃ k x, a = .writer k x) ∨
    ∃ c k inv, TokimoConfinement.taskOf a = some c ∧ (s.system.world.call c).origin = .app k inv ∧
      a ≠ .elapse c ∧ a ≠ .localTimeout c
  | _ => True

end TokimoNested

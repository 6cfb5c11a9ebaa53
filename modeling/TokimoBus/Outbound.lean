import TokimoBus.Frame
import TokimoBus.LabelledRuns

/-!
The outbound half of a connection: the frame encoder's size check, the unbounded
channel that any task may send on, and the writer task that drains it. A broker
session and a client run the same loop, so both use this one model. The stream
is the list of frames written whole, followed by the bytes of a frame whose
write was cut short.
-/
namespace TokimoOutbound
open TokimoFrame LabelledRuns

/-- `rmp_serde::to_vec_named`, with the text of its error. -/
abbrev Encoder := BusFrame → Except String Bytes

def maxFrameBytes : UInt32 := 32 * 1024 * 1024

def toBeBytes (n : UInt32) : Bytes :=
  [(n >>> 24).toUInt8, (n >>> 16).toUInt8, (n >>> 8).toUInt8, n.toUInt8]

def writeFrame (toVecNamed : Encoder) (value : BusFrame) : Except BusError Bytes :=
  match toVecNamed value with
  | .error e => .error (.codec ("encode: " ++ e))
  | .ok bytes =>
    if bytes.length > maxFrameBytes.toNat then
      .error (.frameTooLarge (UInt64.ofNat bytes.length) maxFrameBytes)
    else .ok (toBeBytes (UInt32.ofNat bytes.length) ++ bytes)

def frameBytes (toVecNamed : Encoder) (value : BusFrame) : Bytes :=
  match writeFrame toVecNamed value with
  | .ok bytes => bytes
  | .error _ => []

def Fits (toVecNamed : Encoder) (value : BusFrame) : Prop :=
  ∃ bytes, toVecNamed value = .ok bytes ∧ bytes.length ≤ maxFrameBytes.toNat

instance (toVecNamed : Encoder) (value : BusFrame) : Decidable (Fits toVecNamed value) :=
  match h : toVecNamed value with
  | .error _ => .isFalse (by rintro ⟨bytes, eq, _⟩; simp [h] at eq)
  | .ok bytes => decidable_of_iff (bytes.length ≤ maxFrameBytes.toNat) (by simp [Fits, h])

theorem fits_iff_written {toVecNamed : Encoder} {value : BusFrame} :
    Fits toVecNamed value ↔ ∃ bytes, writeFrame toVecNamed value = .ok bytes := by
  unfold Fits writeFrame
  cases toVecNamed value with
  | error e => simp
  | ok bytes =>
    by_cases large : bytes.length > maxFrameBytes.toNat
    · simp [large]
    · simp [large]; omega

inductive WriterTask where
  | unspawned
  | idle
  | writing (f : BusFrame)
  | ended
  deriving DecidableEq

/-- The channel, its writer task and the stream. The receiving half of the channel
    lives until the writer task has ended. -/
structure Outbound where
  queue : List BusFrame
  writer : WriterTask
  aborted : Bool
  written : List BusFrame
  torn : Bytes
  deriving DecidableEq

def Outbound.fresh : Outbound := ⟨[], .unspawned, false, [], []⟩

def Outbound.IsOpen (o : Outbound) : Prop := o.writer ≠ .ended

instance (o : Outbound) : Decidable o.IsOpen := inferInstanceAs (Decidable (_ ≠ _))

def Outbound.push (o : Outbound) (f : BusFrame) : Outbound := { o with queue := o.queue ++ [f] }

def Outbound.spawn (o : Outbound) : Outbound := { o with writer := .idle }

def Outbound.stop (o : Outbound) : Outbound := { o with writer := .ended, queue := [] }

def Outbound.direct (o : Outbound) (f : BusFrame) : Outbound := { o with written := o.written ++ [f] }

def Outbound.tear (o : Outbound) (bytes : Bytes) : Outbound := { o with torn := bytes }

def Outbound.abort (o : Outbound) : Outbound := { o with aborted := true }

def Outbound.wire (toVecNamed : Encoder) (o : Outbound) : Bytes :=
  o.written.flatMap (frameBytes toVecNamed) ++ o.torn

inductive WriterAct where
  | recv (f : BusFrame)
  | wrote (f : BusFrame)
  | rejected (f : BusFrame) (e : BusError)
  | broke (f : BusFrame) (cut : Bytes)
  | cancelled (cut : Bytes)
  deriving DecidableEq

/-- One step of `while let Some(f) = rx.recv().await { if write_frame(..).is_err() { break } }`. -/
inductive WriterStep (toVecNamed : Encoder) : Outbound → WriterAct → Outbound → Prop where
  | recv {o : Outbound} {f : BusFrame} {rest : List BusFrame}
      (idle : o.writer = .idle) (next : o.queue = f :: rest) :
      WriterStep toVecNamed o (.recv f) { o with queue := rest, writer := .writing f }
  | wrote {o : Outbound} {f : BusFrame} {bytes : Bytes}
      (busy : o.writer = .writing f) (fits : writeFrame toVecNamed f = .ok bytes) :
      WriterStep toVecNamed o (.wrote f) { o.direct f with writer := .idle }
  -- any error ends the loop, also one returned before a byte was written
  | rejected {o : Outbound} {f : BusFrame} {e : BusError}
      (busy : o.writer = .writing f) (refused : writeFrame toVecNamed f = .error e) :
      WriterStep toVecNamed o (.rejected f e) o.stop
  | broke {o : Outbound} {f : BusFrame} {bytes cut : Bytes}
      (busy : o.writer = .writing f) (fits : writeFrame toVecNamed f = .ok bytes)
      (part : cut <+: bytes) :
      WriterStep toVecNamed o (.broke f cut) (o.stop.tear cut)
  -- an abort takes effect at an await point, possibly in the middle of a write
  | cancelledIdle {o : Outbound} (asked : o.aborted = true) (idle : o.writer = .idle) :
      WriterStep toVecNamed o (.cancelled []) o.stop
  | cancelledBusy {o : Outbound} {f : BusFrame} {bytes cut : Bytes}
      (asked : o.aborted = true) (busy : o.writer = .writing f)
      (fits : writeFrame toVecNamed f = .ok bytes) (part : cut <+: bytes) :
      WriterStep toVecNamed o (.cancelled cut) (o.stop.tear cut)

end TokimoOutbound

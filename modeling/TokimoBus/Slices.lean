import TokimoBus.Unpacking
import TokimoBus.Decoding
import TokimoBus.Codec

/-!
Frames down to the bytes, for any payload codec that loses nothing of what it is given: what
`write_frame` puts on a stream, `read_frame_opt` takes off it again. A reader of MessagePack is
such a codec.
-/
namespace TokimoSlices
open TokimoFrame TokimoOutbound TokimoWire TokimoDecoding TokimoCodec MessagePack Records
open ChunkedStream

/-- The codec hands on a value of serde's data model as it is: from the encoding of a frame within
    the limit it decodes what the derived `Deserialize` makes of what the derived `Serialize` has
    presented to it. -/
def Lossless (encoder : Encoder) (decode : Bytes → Except String BusFrame) : Prop :=
  ∀ f g bytes, encoder f = .ok bytes → bytes.length ≤ maxFrameBytes.toNat →
    decodeFrame (.map (frameFields f)) = some g → decode bytes = .ok g

variable {encoder : Encoder} {decode : Bytes → Except String BusFrame} {complaint : Bytes → String}
  {f : BusFrame} {frames : List BusFrame} {d : Nat}

theorem lossless_reads (lossless : Lossless encoder decode) (fits : Fits encoder f) {bytes : Bytes}
    (encoded : encoder f = .ok bytes) : decode bytes = .ok (received f) := by
  obtain ⟨bytes', same, short⟩ := fits
  rw [encoded] at same
  cases same
  exact lossless f _ bytes encoded short (frame_read f)

/-- Frames that fit are all written, and come out of any pieces that the transport makes of
    their bytes: each as it was, but for a heartbeat interval in whole milliseconds. -/
theorem frames_received (lossless : Lossless encoder decode) {rest : Bytes} {r : Reader}
    (fits : ∀ f ∈ frames, Fits encoder f)
    (here : r.content = (writeFrames encoder frames []).2 ++ rest) :
    (writeFrames encoder frames []).1 = .ok () ∧
      ∃ left, readFrames decode frames.length r =
          (frames.map fun f => .ok (some (received f)), left) ∧
        left.content = rest ∧ left.ending = r.ending := by
  rw [writeFrames_written fits, List.nil_append] at here
  refine ⟨by rw [writeFrames_written fits], ?_⟩
  exact readFrames_written fits (fun f mem bytes encoded =>
    lossless_reads lossless (fits f mem) encoded) here

def maxDepth : Nat := 1024

/-- A reader for what `toVecNamed` writes, with what it says of bytes that it cannot read. -/
def unpackFrame (complaint : Bytes → String) (bytes : Bytes) : Except String BusFrame :=
  match (readValue maxDepth bytes).bind fun r => decodeFrame r.1 with
  | some f => .ok f
  | none => .error (complaint bytes)

theorem shallow_optional {α : Type} {value : α → Value}
    (inner : ∀ x, Shallow (d + 1) (value x)) (o : Option α) :
    Shallow (d + 1) (optional value o) := by
  cases o with
  | none => exact .nil d
  | some x => exact inner x

theorem shallow_bytes (bytes : Bytes) : Shallow (d + 2) (byteArray bytes) := by
  refine .array fun x mem => ?_
  obtain ⟨b, _, rfl⟩ := List.mem_map.mp mem
  exact .uint d _

theorem shallow_version (v : ProtocolVersion) : Shallow (d + 2) (versionValue v) := by
  refine .map fun field mem => ?_
  simp only [List.mem_cons, List.not_mem_nil, or_false] at mem
  rcases mem with rfl | rfl <;> exact .uint d _

theorem shallow_methodDecl (m : MethodDecl) : Shallow (d + 2) (methodDeclValue m) := by
  refine .map fun field mem => ?_
  simp only [List.mem_cons, List.not_mem_nil, or_false] at mem
  rcases mem with rfl | rfl | rfl | rfl | rfl | rfl
  · exact .str d _
  · exact .bool d _
  · exact .bool d _
  · exact .str d _
  · exact shallow_optional (fun s => .str d s) m.path
  · exact shallow_optional (fun s => .str d s) m.description

theorem shallow_dataPlane (s : DataPlaneSocket) : Shallow (d + 2) (dataPlaneValue s) := by
  cases s <;> refine .map fun field mem => ?_ <;>
    simp only [List.mem_cons, List.not_mem_nil, or_false] at mem <;>
    rcases mem with rfl | rfl <;> exact .str d _

theorem shallow_caller (c : CallerCtx) : Shallow (d + 2) (callerValue c) := by
  refine .map fun field mem => ?_
  simp only [List.mem_cons, List.not_mem_nil, or_false] at mem
  rcases mem with rfl | rfl | rfl | rfl
  · exact shallow_optional (fun s => .str d s) c.userId
  · exact .str d _
  · exact shallow_optional (fun s => .str d s) c.workspace
  · exact shallow_optional (fun s => .str d s) c.callerAppId

theorem shallow_variant {name : String} {x : Value} (inner : Shallow d x) :
    Shallow (d + 1) (.map [(name, x)]) := by
  refine .map fun field mem => ?_
  obtain rfl := List.mem_singleton.mp mem
  exact inner

theorem shallow_error (e : BusError) : Shallow (d + 4) (errorValue e) := by
  cases e with
  | connectionClosed | invalidAuthToken => exact .str _ _
  | io | codec | serviceNotFound | badRequest | internal | app => exact shallow_variant (.str _ _)
  | frameTooLarge | methodNotFound | unauthorized | timeout | protocolMismatch =>
    refine shallow_variant (.map fun field mem => ?_)
    simp only [List.mem_cons, List.not_mem_nil, or_false] at mem
    rcases mem with rfl | rfl <;>
      first | exact .uint _ _ | exact .str _ _ | exact shallow_version _

theorem shallow_outcome (r : Outcome) : Shallow (d + 5) (outcomeValue r) := by
  cases r with
  | ok bytes => exact shallow_variant (shallow_bytes bytes)
  | error e => exact shallow_variant (shallow_error e)

theorem shallow_event (e : Event) : ∀ field ∈ eventFields e, Shallow (d + 2) field.2 := by
  intro field mem
  simp only [eventFields, List.mem_cons, List.not_mem_nil, or_false] at mem
  rcases mem with rfl | rfl | rfl
  · exact .str _ _
  · exact shallow_bytes _
  · exact shallow_optional (fun s => .str _ s) e.fromService

/-- No frame is nested more than six deep. -/
theorem shallow_frame (f : BusFrame) : Shallow (d + 6) (.map (frameFields f)) := by
  refine .map fun field mem => ?_
  cases f with
  | hello h =>
    simp only [frameFields, List.mem_cons, List.not_mem_nil, or_false] at mem
    rcases mem with rfl | rfl | rfl | rfl | rfl | rfl | rfl | rfl | rfl
    · exact .str _ _
    · exact shallow_version _
    · exact .str _ _
    · exact .str _ _
    · exact .uint _ _
    · exact .str _ _
    · refine .array fun x mem => ?_
      obtain ⟨m, _, rfl⟩ := List.mem_map.mp mem
      exact shallow_methodDecl m
    · refine .array fun x mem => ?_
      obtain ⟨s, _, rfl⟩ := List.mem_map.mp mem
      exact .str _ _
    · exact shallow_optional (fun s => shallow_dataPlane s) h.dataPlane
  | publish e | event e =>
    simp only [frameFields, List.mem_cons] at mem
    rcases mem with rfl | mem
    · exact .str _ _
    · exact shallow_event e field mem
  | streamClose s =>
    simp only [frameFields, List.mem_cons, List.not_mem_nil, or_false] at mem
    rcases mem with rfl | rfl | rfl
    · exact .str _ _
    · exact .uint _ _
    · exact shallow_optional (fun e => shallow_error e) s.error
  | _ =>
    simp only [frameFields, List.mem_cons, List.not_mem_nil, or_false] at mem
    rcases mem with rfl | rfl | rfl | rfl | rfl <;>
      first
        | exact .str _ _
        | exact .uint _ _
        | exact shallow_bytes _
        | exact shallow_caller _
        | exact shallow_outcome _

theorem unpackFrame_lossless : Lossless toVecNamed (unpackFrame complaint) := by
  intro f g bytes encoded short read
  cases encoded
  have small : (Value.map (frameFields f)).bytes.length < 2 ^ 32 := by
    rw [maxFrameBytes_toNat] at short
    omega
  have shallow : Shallow maxDepth (.map (frameFields f)) := shallow_frame f
  have parsed := readValue_written shallow small []
  rw [List.append_nil] at parsed
  unfold unpackFrame
  rw [parsed, Option.bind_some, read]

def pingsReader : Reader :=
  ⟨bytewise ((writeFrames toVecNamed [.ping, .ping] []).2 ++ [7]), earlyEof⟩

theorem pings_received : ∃ left : Reader,
    readFrames (unpackFrame fun _ => "decode") 2 pingsReader =
      ([.ok (some .ping), .ok (some .ping)], left) ∧
    left.content = [7] ∧ left.ending = earlyEof :=
  (@frames_received toVecNamed (unpackFrame fun _ => "decode") [.ping, .ping] unpackFrame_lossless
    [7] pingsReader pings_fit (joined_bytewise _)).2

end TokimoSlices

import TokimoBus.ChunkedStream
import TokimoBus.Wire

/-!
Length-prefixed frames on a byte stream. `write_frame` puts the length of the encoding
in front of it, and `read_frame_opt` reads the four bytes of the length and then that
many more. The reading side sees the bytes in whatever pieces the transport makes.
-/
namespace TokimoCodec
open TokimoFrame TokimoOutbound TokimoWire ChunkedStream
variable {α : Type} {toVecNamed : Encoder} {fromSlice : Bytes → Except String α}

inductive ErrorKind where
  | unexpectedEof
  | other
  deriving DecidableEq

structure IoError where
  kind : ErrorKind
  message : String
  deriving DecidableEq

/-- What `read_exact` makes of the end of the stream. -/
def earlyEof : IoError := ⟨.unexpectedEof, "early eof"⟩

abbrev Reader := Incoming UInt8 IoError

def fromBeBytes (bytes : Bytes) : UInt32 :=
  UInt32.ofNat (bytes.foldl (fun n b => n * 256 + b.toNat) 0)

/-- `write_frame` on a transport that takes every byte it is given. -/
def writeFrameTo (toVecNamed : Encoder) (value : BusFrame) (w : Bytes) :
    Except BusError Unit × Bytes :=
  match toVecNamed value with
  | .error e => (.error (.codec ("encode: " ++ e)), w)
  | .ok bytes =>
    if bytes.length > maxFrameBytes.toNat then
      (.error (.frameTooLarge (UInt64.ofNat bytes.length) maxFrameBytes), w)
    else (.ok (), w ++ toBeBytes (UInt32.ofNat bytes.length) ++ bytes)

def writeFrames (toVecNamed : Encoder) : List BusFrame → Bytes → Except BusError Unit × Bytes
  | [], w => (.ok (), w)
  | f :: rest, w =>
    match writeFrameTo toVecNamed f w with
    | (.ok (), w) => writeFrames toVecNamed rest w
    | (.error e, w) => (.error e, w)

def decoded (fromSlice : Bytes → Except String α) (buf : Bytes) : Except BusError (Option α) :=
  match fromSlice buf with
  | .ok value => .ok (some value)
  | .error e => .error (.codec ("decode: " ++ e))

def readFrameOpt (fromSlice : Bytes → Except String α) (r : Reader) :
    Except BusError (Option α) × Reader :=
  match r.readExact 4 with
  | (.error e, r) =>
    if e.kind = .unexpectedEof then (.ok none, r) else (.error (.io e.message), r)
  | (.ok lenBuf, r) =>
    let len := fromBeBytes lenBuf
    if len > maxFrameBytes then (.error (.frameTooLarge len.toUInt64 maxFrameBytes), r)
    else
      match r.readExact len.toNat with
      | (.error e, r) => (.error (.io e.message), r)
      | (.ok buf, r) => (decoded fromSlice buf, r)

def readFrames (fromSlice : Bytes → Except String α) :
    Nat → Reader → List (Except BusError (Option α)) × Reader
  | 0, r => ([], r)
  | n + 1, r =>
    let (first, r) := readFrameOpt fromSlice r
    let (rest, r) := readFrames fromSlice n r
    (first :: rest, r)

theorem writeFrameTo_eq (value : BusFrame) (w : Bytes) :
    writeFrameTo toVecNamed value w = match writeFrame toVecNamed value with
      | .ok bytes => (.ok (), w ++ bytes)
      | .error e => (.error e, w) := by
  unfold writeFrameTo writeFrame
  cases toVecNamed value with
  | error e => rfl
  | ok bytes =>
    by_cases large : bytes.length > maxFrameBytes.toNat
    · simp only [large, ↓reduceIte]
    · simp only [large, ↓reduceIte, List.append_assoc]

theorem toBeBytes_length (n : UInt32) : (toBeBytes n).length = 4 := rfl

theorem fromBeBytes_toBeBytes (n : UInt32) : fromBeBytes (toBeBytes n) = n := by
  have bound := n.toNat_lt
  have value : (toBeBytes n).foldl (fun n b => n * 256 + b.toNat) 0 = n.toNat := by
    simp only [toBeBytes, List.foldl_cons, List.foldl_nil, UInt32.toNat_toUInt8,
      UInt32.toNat_shiftRight, Nat.shiftRight_eq_div_pow]
    simp
    omega
  unfold fromBeBytes
  rw [value, UInt32.ofNat_toNat]

theorem maxFrameBytes_toNat : maxFrameBytes.toNat = 33554432 := rfl

theorem cast_length {n : Nat} (small : n ≤ maxFrameBytes.toNat) : (UInt32.ofNat n).toNat = n := by
  rw [maxFrameBytes_toNat] at small
  rw [UInt32.toNat_ofNat', Nat.mod_eq_of_lt (by omega)]

theorem read_oversized (fromSlice : Bytes → Except String α) {r : Reader} {len : UInt32}
    {rest : Bytes} (here : r.content = toBeBytes len ++ rest) (large : maxFrameBytes < len) :
    ∃ left, readFrameOpt fromSlice r =
      (.error (.frameTooLarge len.toUInt64 maxFrameBytes), left) ∧ left.content = rest := by
  obtain ⟨left, header, found, _⟩ := readExact_split here
  rw [toBeBytes_length] at header
  refine ⟨left, ?_, found⟩
  simp only [readFrameOpt, header, fromBeBytes_toBeBytes]
  rw [if_pos large]

theorem read_payload (fromSlice : Bytes → Except String α) {r : Reader} {len : UInt32}
    {payload rest : Bytes} (here : r.content = toBeBytes len ++ payload ++ rest)
    (size : payload.length = len.toNat) (small : len ≤ maxFrameBytes) :
    ∃ left, readFrameOpt fromSlice r = (decoded fromSlice payload, left) ∧
      left.content = rest ∧ left.ending = r.ending := by
  rw [List.append_assoc] at here
  obtain ⟨middle, header, found, keeps⟩ := readExact_split here
  rw [toBeBytes_length] at header
  obtain ⟨left, body, found', keeps'⟩ := readExact_split found
  rw [size] at body
  refine ⟨left, ?_, found', keeps'.trans keeps⟩
  simp only [readFrameOpt, header, fromBeBytes_toBeBytes]
  rw [if_neg (UInt32.not_lt.mpr small)]
  simp only [body]

theorem read_written {f : BusFrame} {value : α} (fits : Fits toVecNamed f)
    (reads : ∀ bytes, toVecNamed f = .ok bytes → fromSlice bytes = .ok value) {r : Reader}
    {rest : Bytes} (here : r.content = frameBytes toVecNamed f ++ rest) :
    ∃ left, readFrameOpt fromSlice r = (.ok (some value), left) ∧ left.content = rest ∧
      left.ending = r.ending := by
  obtain ⟨bytes, encoded, short⟩ := fits
  have whole : frameBytes toVecNamed f = toBeBytes (UInt32.ofNat bytes.length) ++ bytes := by
    unfold frameBytes writeFrame
    rw [encoded]
    simp only [if_neg (Nat.not_lt.mpr short)]
  rw [whole] at here
  have small : UInt32.ofNat bytes.length ≤ maxFrameBytes := by
    rw [UInt32.le_iff_toNat_le, cast_length short]
    exact short
  obtain ⟨left, read, found, keeps⟩ :=
    read_payload fromSlice here (cast_length short).symm small
  refine ⟨left, ?_, found, keeps⟩
  rw [read, decoded, reads bytes encoded]

theorem writeFrames_written {frames : List BusFrame} (fits : ∀ f ∈ frames, Fits toVecNamed f)
    (w : Bytes) : writeFrames toVecNamed frames w =
      (.ok (), w ++ frames.flatMap (frameBytes toVecNamed)) := by
  induction frames generalizing w with
  | nil => simp [writeFrames]
  | cons f rest ih =>
    obtain ⟨bytes, written⟩ := fits_iff_written.mp (fits f (by simp))
    have first : writeFrameTo toVecNamed f w = (.ok (), w ++ frameBytes toVecNamed f) := by
      rw [writeFrameTo_eq, frameBytes, written]
    simp only [writeFrames, first, List.flatMap_cons]
    rw [ih (fun g mem => fits g (List.mem_cons_of_mem _ mem)), List.append_assoc]

theorem readFrames_written {value : BusFrame → α} {frames : List BusFrame}
    (fits : ∀ f ∈ frames, Fits toVecNamed f)
    (reads : ∀ f ∈ frames, ∀ bytes, toVecNamed f = .ok bytes → fromSlice bytes = .ok (value f))
    {r : Reader} {rest : Bytes}
    (here : r.content = frames.flatMap (frameBytes toVecNamed) ++ rest) :
    ∃ left, readFrames fromSlice frames.length r =
        (frames.map fun f => .ok (some (value f)), left) ∧
      left.content = rest ∧ left.ending = r.ending := by
  induction frames generalizing r with
  | nil => exact ⟨r, rfl, here, rfl⟩
  | cons f frames ih =>
    rw [List.flatMap_cons, List.append_assoc] at here
    obtain ⟨middle, first, found, keeps⟩ :=
      read_written (fits f (by simp)) (reads f (by simp)) here
    obtain ⟨left, others, found', keeps'⟩ := ih
      (fun g mem => fits g (List.mem_cons_of_mem _ mem))
      (fun g mem => reads g (List.mem_cons_of_mem _ mem)) found
    refine ⟨left, ?_, found', keeps'.trans keeps⟩
    simp only [List.length_cons, readFrames, first, others, List.map_cons]

/-- Frames come out as they went in, and both sides draw the line at the same length. -/
theorem frame_stream_round_trip (toVecNamed : Encoder)
    (fromSlice : Bytes → Except String BusFrame) :
    (∀ frames rest r, (∀ f ∈ frames, Fits toVecNamed f) →
      (∀ f ∈ frames, ∀ bytes, toVecNamed f = .ok bytes → fromSlice bytes = .ok f) →
      (writeFrames toVecNamed frames []).1 = .ok () ∧
        (r.content = (writeFrames toVecNamed frames []).2 ++ rest →
          ∃ left, readFrames fromSlice frames.length r =
            (frames.map fun f => .ok (some f), left) ∧
            left.content = rest ∧ left.ending = r.ending)) ∧
    (∀ f bytes w, toVecNamed f = .ok bytes →
      (bytes.length ≤ maxFrameBytes.toNat → writeFrameTo toVecNamed f w =
        (.ok (), w ++ toBeBytes (UInt32.ofNat bytes.length) ++ bytes)) ∧
      (maxFrameBytes.toNat < bytes.length → writeFrameTo toVecNamed f w =
        (.error (.frameTooLarge (UInt64.ofNat bytes.length) maxFrameBytes), w))) ∧
    ∀ (len : UInt32) payload rest r, payload.length = len.toNat →
      r.content = toBeBytes len ++ payload ++ rest →
      (len.toNat ≤ maxFrameBytes.toNat → ∃ left,
        readFrameOpt fromSlice r = (decoded fromSlice payload, left) ∧ left.content = rest) ∧
      (maxFrameBytes.toNat < len.toNat → ∃ left, readFrameOpt fromSlice r =
        (.error (.frameTooLarge len.toUInt64 maxFrameBytes), left)) := by
  refine ⟨?_, ?_, ?_⟩
  · intro frames rest r fits lossless
    rw [writeFrames_written fits]
    refine ⟨rfl, fun here => ?_⟩
    rw [List.nil_append] at here
    exact readFrames_written fits lossless here
  · intro f bytes w encoded
    constructor
    · intro short
      simp only [writeFrameTo, encoded, if_neg (Nat.not_lt.mpr short)]
    · intro long
      simp only [writeFrameTo, encoded, if_pos (show bytes.length > _ from long)]
  · intro len payload rest r size here
    constructor
    · intro small
      obtain ⟨left, read, found, _⟩ :=
        read_payload fromSlice here size (UInt32.le_iff_toNat_le.mpr small)
      exact ⟨left, read, found⟩
    · intro large
      rw [List.append_assoc] at here
      obtain ⟨left, read, _⟩ := read_oversized fromSlice here (UInt32.lt_iff_toNat_lt.mpr large)
      exact ⟨left, read⟩

def pingBytes : Bytes := (MessagePack.Value.map (frameFields .ping)).bytes

def pingSlice (bytes : Bytes) : Except String BusFrame :=
  if bytes = pingBytes then .ok .ping else .error "unknown variant"

def bytewise (bytes : Bytes) : List (Chunk UInt8) := bytes.map fun b => ⟨[b], List.cons_ne_nil b []⟩

theorem joined_bytewise (bytes : Bytes) : joined (bytewise bytes) = bytes := by
  induction bytes with
  | nil => rfl
  | cons b rest ih =>
    change b :: joined (bytewise rest) = b :: rest
    rw [ih]

theorem pings_fit : ∀ f ∈ [BusFrame.ping, .ping], Fits TokimoWire.toVecNamed f := by
  decide +kernel

theorem ping_lossless : ∀ f ∈ [BusFrame.ping, .ping], ∀ bytes,
    TokimoWire.toVecNamed f = .ok bytes → pingSlice bytes = .ok f := by
  intro f mem bytes encoded
  have one : f = .ping := by simpa using mem
  subst one
  cases encoded
  exact if_pos rfl

theorem two_pings_round_trip : ∃ left : Reader,
    readFrames pingSlice 2 ⟨bytewise ((writeFrames TokimoWire.toVecNamed [.ping, .ping] []).2 ++
      [7]), earlyEof⟩ = ([.ok (some .ping), .ok (some .ping)], left) ∧
    left.content = [7] ∧ left.ending = earlyEof :=
  ((frame_stream_round_trip TokimoWire.toVecNamed pingSlice).1 [.ping, .ping] [7] _ pings_fit
    ping_lossless).2 (joined_bytewise _)

end TokimoCodec

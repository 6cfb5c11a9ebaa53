import TokimoBus.Codec

/-!
Reading frame after frame until the stream ends. The main loops of `serve` and of a
client stop in one of two ways, and a peer that dies in the middle of a frame should
make them stop with an error. It does unless the cut falls inside a length prefix,
which `read_frame_opt` takes for a clean end.
-/
namespace TokimoTruncation
open TokimoFrame TokimoOutbound TokimoCodec ChunkedStream
variable {α : Type} {toVecNamed : Encoder}

inductive LoopEnd where
  | closed
  | readError (e : BusError)
  deriving DecidableEq

theorem read_consumes {fromSlice : Bytes → Except String α} {r left : Reader} {value : α}
    (read : readFrameOpt fromSlice r = (.ok (some value), left)) :
    left.content.length < r.content.length := by
  unfold readFrameOpt at read
  split at read
  · split at read <;> cases read
  · rename_i lenBuf middle header
    obtain ⟨parts, size⟩ := readExact_found header
    simp only at read
    split at read
    · cases read
    · split at read
      · cases read
      · rename_i payload after body
        obtain ⟨parts', _⟩ := readExact_found body
        obtain ⟨_, rfl⟩ := Prod.mk.inj read
        rw [parts, parts', List.length_append, List.length_append, size]
        omega

/-- `loop { match read_frame_opt(..) { .. } }`, with the frames it hands on. -/
def readLoop (fromSlice : Bytes → Except String α) (r : Reader) : List α × LoopEnd :=
  match _read : readFrameOpt fromSlice r with
  | (.ok (some value), left) =>
    let (values, stop) := readLoop fromSlice left
    (value :: values, stop)
  | (.ok none, _) => ([], .closed)
  | (.error e, _) => ([], .readError e)
termination_by r.content.length
decreasing_by exact read_consumes _read

theorem readLoop_next {fromSlice : Bytes → Except String α} {r left : Reader} {value : α}
    (read : readFrameOpt fromSlice r = (.ok (some value), left)) :
    readLoop fromSlice r =
      (value :: (readLoop fromSlice left).1, (readLoop fromSlice left).2) := by
  rw [readLoop]
  split <;> simp_all

theorem readLoop_closed {fromSlice : Bytes → Except String α} {r left : Reader}
    (read : readFrameOpt fromSlice r = (.ok none, left)) :
    readLoop fromSlice r = ([], .closed) := by
  rw [readLoop]
  split <;> simp_all

theorem readLoop_failed {fromSlice : Bytes → Except String α} {r left : Reader} {e : BusError}
    (read : readFrameOpt fromSlice r = (.error e, left)) :
    readLoop fromSlice r = ([], .readError e) := by
  rw [readLoop]
  split <;> simp_all

/-- The frames that lie completely inside the first `n` bytes, and how many bytes of the next
    one do. -/
def splitFrames (toVecNamed : Encoder) : List BusFrame → Nat → List BusFrame × Nat
  | [], n => ([], n)
  | f :: rest, n =>
    let size := (frameBytes toVecNamed f).length
    if size ≤ n then
      let (inside, cut) := splitFrames toVecNamed rest (n - size)
      (f :: inside, cut)
    else ([], n)

/-- A prefix of an encoding is some whole frames and a part of the next one. -/
theorem prefix_split {frames : List BusFrame} {p : Bytes}
    (part : p <+: frames.flatMap (frameBytes toVecNamed)) :
    ∃ q, p = (splitFrames toVecNamed frames p.length).1.flatMap (frameBytes toVecNamed) ++ q ∧
      q.length = (splitFrames toVecNamed frames p.length).2 ∧
      (∀ f ∈ (splitFrames toVecNamed frames p.length).1, f ∈ frames) ∧
      (q = [] ∨ ∃ f ∈ frames, q <+: frameBytes toVecNamed f ∧
        q.length < (frameBytes toVecNamed f).length) := by
  induction frames generalizing p with
  | nil =>
    obtain rfl := List.prefix_nil.mp part
    exact ⟨[], rfl, rfl, fun f mem => mem, Or.inl rfl⟩
  | cons f frames ih =>
    rw [List.flatMap_cons] at part
    unfold splitFrames
    by_cases whole : (frameBytes toVecNamed f).length ≤ p.length
    · simp only [if_pos whole]
      obtain ⟨p', rfl⟩ := List.prefix_of_prefix_length_le
        (List.prefix_append _ _) part whole
      have part' := (List.prefix_append_right_inj _).mp part
      obtain ⟨q, parts, size, among, next⟩ := ih part'
      rw [List.length_append, Nat.add_sub_cancel_left]
      refine ⟨q, ?_, size, ?_, ?_⟩
      · rw [List.flatMap_cons, List.append_assoc, ← parts]
      · intro g mem
        rcases List.mem_cons.mp mem with rfl | later
        · exact List.mem_cons_self
        · exact List.mem_cons_of_mem _ (among g later)
      · rcases next with empty | ⟨g, mem, inside, shorter⟩
        · exact Or.inl empty
        · exact Or.inr ⟨g, List.mem_cons_of_mem _ mem, inside, shorter⟩
    · simp only [if_neg whole]
      have shorter : p.length < (frameBytes toVecNamed f).length := by omega
      refine ⟨p, rfl, rfl, fun g mem => absurd mem List.not_mem_nil, Or.inr ⟨f, ?_, ?_, shorter⟩⟩
      · exact List.mem_cons_self
      · exact List.prefix_of_prefix_length_le part (List.prefix_append _ _) (by omega)

theorem read_short_header {fromSlice : Bytes → Except String α} {r : Reader}
    (short : r.content.length < 4) (eof : r.ending = earlyEof) :
    ∃ left, readFrameOpt fromSlice r = (.ok none, left) := by
  refine ⟨{ r with chunks := [] }, ?_⟩
  simp only [readFrameOpt, readExact_short short, eof]
  rfl

theorem read_short_payload {fromSlice : Bytes → Except String α} {f : BusFrame}
    (fits : Fits toVecNamed f) {r : Reader} (part : r.content <+: frameBytes toVecNamed f)
    (header : 4 ≤ r.content.length) (short : r.content.length < (frameBytes toVecNamed f).length)
    (eof : r.ending = earlyEof) :
    ∃ left, readFrameOpt fromSlice r = (.error (.io "early eof"), left) := by
  obtain ⟨bytes, encoded, small⟩ := fits
  have whole : frameBytes toVecNamed f = toBeBytes (UInt32.ofNat bytes.length) ++ bytes := by
    unfold frameBytes writeFrame
    rw [encoded]
    simp only [if_neg (Nat.not_lt.mpr small)]
  rw [whole] at part short
  obtain ⟨body, parts⟩ := List.prefix_of_prefix_length_le (List.prefix_append _ _) part
    (by rw [toBeBytes_length]; exact header)
  obtain ⟨left, read, found, keeps⟩ := readExact_split parts.symm
  rw [toBeBytes_length] at read
  have missing : left.content.length < (UInt32.ofNat bytes.length).toNat := by
    rw [← parts, List.length_append, List.length_append] at short
    rw [cast_length small, found]
    omega
  have allowed : ¬ UInt32.ofNat bytes.length > maxFrameBytes := by
    apply UInt32.not_lt.mpr
    rw [UInt32.le_iff_toNat_le, cast_length small]
    exact small
  refine ⟨{ left with chunks := [] }, ?_⟩
  simp only [readFrameOpt, read, fromBeBytes_toBeBytes, if_neg allowed,
    readExact_short missing, keeps, eof]
  rfl

theorem readLoop_frames {fromSlice : Bytes → Except String BusFrame} {frames : List BusFrame}
    (fits : ∀ f ∈ frames, Fits toVecNamed f)
    (lossless : ∀ f ∈ frames, ∀ bytes, toVecNamed f = .ok bytes → fromSlice bytes = .ok f)
    {r : Reader} {rest : Bytes}
    (here : r.content = frames.flatMap (frameBytes toVecNamed) ++ rest) :
    ∃ left : Reader, left.content = rest ∧ left.ending = r.ending ∧
      readLoop fromSlice r =
        (frames ++ (readLoop fromSlice left).1, (readLoop fromSlice left).2) := by
  induction frames generalizing r with
  | nil => exact ⟨r, here, rfl, rfl⟩
  | cons f frames ih =>
    rw [List.flatMap_cons, List.append_assoc] at here
    obtain ⟨middle, first, found, keeps⟩ :=
      read_written (fits f (by simp)) (lossless f (by simp)) here
    obtain ⟨left, content, ending, others⟩ := ih
      (fun g mem => fits g (List.mem_cons_of_mem _ mem))
      (fun g mem => lossless g (List.mem_cons_of_mem _ mem)) found
    refine ⟨left, content, ending.trans keeps, ?_⟩
    rw [readLoop_next first, others]
    rfl

theorem readLoop_truncated {fromSlice : Bytes → Except String BusFrame} {frames : List BusFrame}
    (fits : ∀ f ∈ frames, Fits toVecNamed f)
    (lossless : ∀ f ∈ frames, ∀ bytes, toVecNamed f = .ok bytes → fromSlice bytes = .ok f)
    {r : Reader} (part : r.content <+: frames.flatMap (frameBytes toVecNamed))
    (eof : r.ending = earlyEof) :
    readLoop fromSlice r = ((splitFrames toVecNamed frames r.content.length).1,
      if (splitFrames toVecNamed frames r.content.length).2 < 4 then .closed
      else .readError (.io "early eof")) := by
  obtain ⟨q, parts, size, among, next⟩ := prefix_split part
  obtain ⟨left, content, ending, read⟩ := readLoop_frames
    (fun f mem => fits f (among f mem)) (fun f mem => lossless f (among f mem)) parts
  rw [read, ← size]
  by_cases short : q.length < 4
  · obtain ⟨_, none⟩ := @read_short_header _ fromSlice left (by rw [content]; exact short)
      (ending.trans eof)
    rw [readLoop_closed none, if_pos short, List.append_nil]
  · rcases next with rfl | ⟨f, mem, inside, shorter⟩
    · exact absurd (Nat.zero_lt_succ 3) short
    · rw [← content] at inside shorter short
      obtain ⟨_, failed⟩ := @read_short_payload _ _ fromSlice _ (fits f mem) left inside
        (Nat.le_of_not_lt short) shorter (ending.trans eof)
      rw [readLoop_failed failed, ← content, if_neg short, List.append_nil]

/-- The loop hands on the whole frames and takes the end for a clean one exactly when no byte
    of a further frame arrived. -/
def TruncationReported (toVecNamed : Encoder) (fromSlice : Bytes → Except String BusFrame)
    (frames : List BusFrame) (r : Reader) : Prop :=
  (readLoop fromSlice r).1 = (splitFrames toVecNamed frames r.content.length).1 ∧
    ((readLoop fromSlice r).2 = .closed ↔
      (splitFrames toVecNamed frames r.content.length).2 = 0)

theorem truncation_reported_iff {fromSlice : Bytes → Except String BusFrame}
    {frames : List BusFrame} (fits : ∀ f ∈ frames, Fits toVecNamed f)
    (lossless : ∀ f ∈ frames, ∀ bytes, toVecNamed f = .ok bytes → fromSlice bytes = .ok f)
    {r : Reader} (part : r.content <+: frames.flatMap (frameBytes toVecNamed))
    (eof : r.ending = earlyEof) :
    TruncationReported toVecNamed fromSlice frames r ↔
      (splitFrames toVecNamed frames r.content.length).2 = 0 ∨
        4 ≤ (splitFrames toVecNamed frames r.content.length).2 := by
  unfold TruncationReported
  rw [readLoop_truncated fits lossless part eof]
  by_cases short : (splitFrames toVecNamed frames r.content.length).2 < 4
  · simp only [if_pos short, true_and, true_iff]
    omega
  · simp only [if_neg short, true_and, reduceCtorEq, false_iff]
    omega

def cutReader (n : Nat) : Reader :=
  ⟨bytewise (([BusFrame.ping, .ping].flatMap (frameBytes TokimoWire.toVecNamed)).take n), earlyEof⟩

theorem cutReader_content (n : Nat) : (cutReader n).content =
    ([BusFrame.ping, .ping].flatMap (frameBytes TokimoWire.toVecNamed)).take n :=
  joined_bytewise _

theorem cut_in_payload_reported :
    TruncationReported TokimoWire.toVecNamed pingSlice [.ping, .ping] (cutReader 21) := by
  refine (truncation_reported_iff pings_fit ping_lossless ?_ rfl).mpr (Or.inr ?_)
  · rw [cutReader_content]
    exact List.take_prefix _ _
  · rw [cutReader_content]
    decide +kernel

/-- Two bytes of the second length prefix have arrived. -/
theorem cut_in_header_unreported :
    ¬ TruncationReported TokimoWire.toVecNamed pingSlice [.ping, .ping] (cutReader 17) := by
  have part : (cutReader 17).content <+:
      [BusFrame.ping, .ping].flatMap (frameBytes TokimoWire.toVecNamed) := by
    rw [cutReader_content]
    exact List.take_prefix _ _
  have cut : (splitFrames TokimoWire.toVecNamed [.ping, .ping] (cutReader 17).content.length).2 =
      2 := by
    rw [cutReader_content]
    decide +kernel
  rintro ⟨_, closed⟩
  rw [readLoop_truncated pings_fit ping_lossless part rfl, cut] at closed
  have clean := closed.mp rfl
  omega

end TokimoTruncation

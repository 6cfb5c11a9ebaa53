import Mathlib.Data.List.Basic

/-!
A stream whose content arrives in pieces. One read gives at most one piece, so that
reading a fixed number of elements takes as many reads as the pieces make necessary.
What such a read returns and leaves depends on the content alone and not on how it
was split.
-/
namespace ChunkedStream
variable {β ε : Type}

abbrev Chunk (β : Type) := { c : List β // c ≠ [] }

/-- What has yet to arrive, and how every read after that fails. -/
structure Incoming (β ε : Type) where
  chunks : List (Chunk β)
  ending : ε

def joined (chunks : List (Chunk β)) : List β := chunks.flatMap fun c => c.val

def Incoming.content (r : Incoming β ε) : List β := joined r.chunks

theorem drop_nonempty {c : List β} {n : Nat} (short : n < c.length) : c.drop n ≠ [] := by
  intro empty
  have lengths := congrArg List.length empty
  rw [List.length_drop, List.length_nil] at lengths
  omega

/-- Reads on until `n` elements are there; what was read before the stream ended is lost. -/
def takeChunks : List (Chunk β) → Nat → Option (List β) × List (Chunk β)
  | chunks, 0 => (some [], chunks)
  | [], _ + 1 => (none, [])
  | c :: rest, n + 1 =>
    if short : n + 1 < c.val.length then
      (some (c.val.take (n + 1)), ⟨c.val.drop (n + 1), drop_nonempty short⟩ :: rest)
    else
      let (more, left) := takeChunks rest (n + 1 - c.val.length)
      (more.map (c.val ++ ·), left)

def Incoming.readExact (r : Incoming β ε) (n : Nat) : Except ε (List β) × Incoming β ε :=
  match takeChunks r.chunks n with
  | (some xs, left) => (.ok xs, { r with chunks := left })
  | (none, left) => (.error r.ending, { r with chunks := left })

theorem takeChunks_enough (chunks : List (Chunk β)) (n : Nat)
    (enough : n ≤ (joined chunks).length) :
    (takeChunks chunks n).1 = some ((joined chunks).take n) ∧
      joined (takeChunks chunks n).2 = (joined chunks).drop n := by
  induction chunks generalizing n with
  | nil =>
    obtain rfl := Nat.le_zero.mp enough
    simp [takeChunks, joined]
  | cons c rest ih =>
    cases n with
    | zero => simp [takeChunks]
    | succ n =>
      have parts : joined (c :: rest) = c.val ++ joined rest := rfl
      unfold takeChunks
      by_cases short : n + 1 < c.val.length
      · have fits : n + 1 - c.val.length = 0 := by omega
        rw [dif_pos short, parts, List.take_append, List.drop_append, fits]
        simp [joined]
      · have later : c.val.length ≤ n + 1 := by omega
        rw [parts, List.length_append] at enough
        obtain ⟨first, left⟩ := ih (n + 1 - c.val.length) (by omega)
        rw [dif_neg short, parts, List.take_append, List.drop_append,
          List.take_of_length_le later, List.drop_eq_nil_of_le later]
        simp [first, left]

theorem takeChunks_short (chunks : List (Chunk β)) (n : Nat)
    (short : (joined chunks).length < n) : takeChunks chunks n = (none, []) := by
  induction chunks generalizing n with
  | nil =>
    cases n with
    | zero => simp at short
    | succ n => rfl
  | cons c rest ih =>
    have parts : joined (c :: rest) = c.val ++ joined rest := rfl
    rw [parts, List.length_append] at short
    cases n with
    | zero => omega
    | succ n =>
      unfold takeChunks
      rw [dif_neg (by omega), ih (n + 1 - c.val.length) (by omega)]
      rfl

theorem readExact_split {r : Incoming β ε} {xs rest : List β} (here : r.content = xs ++ rest) :
    ∃ left, r.readExact xs.length = (.ok xs, left) ∧ left.content = rest ∧
      left.ending = r.ending := by
  have joint : joined r.chunks = xs ++ rest := here
  have enough : xs.length ≤ (joined r.chunks).length := by
    rw [joint, List.length_append]
    omega
  obtain ⟨first, left⟩ := takeChunks_enough r.chunks xs.length enough
  rw [joint, List.take_left] at first
  rw [joint, List.drop_left] at left
  refine ⟨{ r with chunks := (takeChunks r.chunks xs.length).2 }, ?_, left, rfl⟩
  unfold Incoming.readExact
  cases read : takeChunks r.chunks xs.length with
  | mk found later =>
    rw [read] at first
    cases first
    rfl

theorem readExact_short {r : Incoming β ε} {n : Nat} (short : r.content.length < n) :
    r.readExact n = (.error r.ending, { r with chunks := [] }) := by
  unfold Incoming.readExact
  rw [takeChunks_short r.chunks n short]

theorem readExact_found {r left : Incoming β ε} {n : Nat} {xs : List β}
    (read : r.readExact n = (.ok xs, left)) :
    r.content = xs ++ left.content ∧ xs.length = n := by
  by_cases short : r.content.length < n
  · rw [readExact_short short] at read
    cases read
  · have enough : (r.content.take n).length = n := by
      rw [List.length_take]
      omega
    obtain ⟨left', found, rest, _⟩ := readExact_split (List.take_append_drop n r.content).symm
    rw [enough, read] at found
    cases found
    exact ⟨by rw [rest, List.take_append_drop], enough⟩

end ChunkedStream

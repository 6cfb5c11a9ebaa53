import Mathlib.Algebra.Ring.Nat
import Mathlib.Data.List.Basic

/-!
A byte stream of bounded capacity between a writer and a reader of frames. The writer puts the
bytes of one frame after the other as long as there is room; the reader takes bytes until it has
one frame whole. Bytes are counted, not kept: what the stream carries is the list of the frames
that have been written whole and not read, then the frame that is being written.
-/
namespace BoundedStream
variable {φ : Type}

/-- How many bytes of the frame being written have gone out, how many the stream holds, and how
    many the reader has of the frame it reads. -/
structure Stream where
  half : Nat
  buffered : Nat
  got : Nat
  deriving DecidableEq

def Stream.empty : Stream := ⟨0, 0, 0⟩

def Stream.fill (s : Stream) : Stream :=
  { s with half := s.half + 1, buffered := s.buffered + 1 }

def Stream.finish (s : Stream) : Stream := { s with half := 0, buffered := s.buffered + 1 }

def Stream.drain (s : Stream) : Stream := { s with buffered := s.buffered - 1, got := s.got + 1 }

def Stream.deliver (s : Stream) : Stream := { s with got := 0 }

def CanFill (capacity : Nat) (size : φ → Nat) (s : Stream) (f : φ) : Prop :=
  s.half + 1 < size f ∧ s.buffered < capacity

def CanFinish (capacity : Nat) (size : φ → Nat) (s : Stream) (f : φ) : Prop :=
  s.half + 1 = size f ∧ s.buffered < capacity

def CanDrain (size : φ → Nat) (s : Stream) (pipe : List φ) : Prop :=
  0 < s.buffered ∧ ∀ f, pipe.head? = some f → s.got < size f

def Whole (size : φ → Nat) (s : Stream) (f : φ) : Prop := s.got = size f

/-- The bytes that have gone out and belong to no frame that has been read are in the stream or
    with the reader. -/
structure Account (size : φ → Nat) (pipe : List φ) (writing : Option φ) (s : Stream) : Prop where
  total : (pipe.map size).sum + s.half = s.buffered + s.got
  part : ∀ f, writing = some f → s.half < size f
  rest : writing = none → s.half = 0
  taken : ∀ f, pipe.head? = some f → s.got ≤ size f

variable {size : φ → Nat} {capacity : Nat} {pipe : List φ} {writing : Option φ} {s : Stream} {f : φ}

theorem account_empty : Account size [] none Stream.empty where
  total := rfl
  part := by simp
  rest := fun _ => rfl
  taken := by simp

theorem account_begin (account : Account size pipe none s) (bytes : 0 < size f) :
    Account size pipe (some f) s where
  total := account.total
  part := by
    intro g same
    cases same
    rw [account.rest rfl]
    exact bytes
  rest := by simp
  taken := account.taken

theorem account_fill (account : Account size pipe (some f) s) (room : CanFill capacity size s f) :
    Account size pipe (some f) s.fill where
  total := by
    have total := account.total
    simp only [Stream.fill]
    omega
  part := by
    intro g same
    cases same
    exact room.1
  rest := by simp
  taken := account.taken

theorem account_finish (account : Account size pipe (some f) s)
    (room : CanFinish capacity size s f) : Account size (pipe ++ [f]) none s.finish where
  total := by
    have total := account.total
    have last := room.1
    simp only [Stream.finish, List.map_append, List.map_cons, List.map_nil, List.sum_append,
      List.sum_cons, List.sum_nil]
    omega
  part := by simp
  rest := fun _ => rfl
  taken := by
    intro g first
    cases pipe with
    | nil =>
      simp only [List.nil_append, List.head?_cons, Option.some.injEq] at first
      subst first
      have total := account.total
      have part := account.part f rfl
      simp only [List.map_nil, List.sum_nil] at total
      simp only [Stream.finish]
      omega
    | cons h rest => exact account.taken g first

theorem account_drain (account : Account size pipe writing s) (bytes : CanDrain size s pipe) :
    Account size pipe writing s.drain where
  total := by
    have total := account.total
    have some := bytes.1
    simp only [Stream.drain]
    omega
  part := account.part
  rest := account.rest
  taken := fun g first => bytes.2 g first

theorem account_deliver (account : Account size (f :: pipe) writing s) (whole : Whole size s f) :
    Account size pipe writing s.deliver where
  total := by
    have total := account.total
    simp only [Whole] at whole
    simp only [List.map_cons, List.sum_cons] at total
    simp only [Stream.deliver]
    omega
  part := account.part
  rest := account.rest
  taken := fun _ _ => Nat.zero_le _

/-- As long as there is anything to carry, the writer or the reader can go on. -/
theorem flows (account : Account size pipe writing s) (room : 0 < capacity)
    (busy : writing ≠ none ∨ pipe ≠ [] ∨ 0 < s.buffered) :
    (∃ f, writing = some f ∧ (CanFill capacity size s f ∨ CanFinish capacity size s f)) ∨
      CanDrain size s pipe ∨ ∃ f, pipe.head? = some f ∧ Whole size s f := by
  have total := account.total
  by_cases full : 0 < s.buffered
  · cases pipe with
    | nil => exact Or.inr (Or.inl ⟨full, by simp⟩)
    | cons g rest =>
      rcases Nat.lt_or_eq_of_le (account.taken g rfl) with less | whole
      · refine Or.inr (Or.inl ⟨full, ?_⟩)
        intro h first
        cases first
        exact less
      · exact Or.inr (Or.inr ⟨g, rfl, whole⟩)
  · cases writing with
    | some f =>
      have part := account.part f rfl
      refine Or.inl ⟨f, rfl, ?_⟩
      rcases Nat.lt_or_eq_of_le part with more | last
      · exact Or.inl ⟨more, by omega⟩
      · exact Or.inr ⟨last, by omega⟩
    | none =>
      have rest := account.rest rfl
      cases pipe with
      | nil => simp [full] at busy
      | cons g rest =>
        have taken := account.taken g rfl
        refine Or.inr (Or.inr ⟨g, rfl, ?_⟩)
        simp only [List.map_cons, List.sum_cons] at total
        simp only [Whole]
        omega

end BoundedStream

import TokimoBus.LabelledRuns

/-!
First-in first-out pipes between the parties of a transition system. What has been
written is what has been read, then what the pipe still holds; so nothing is read more
often than it was written.
-/
namespace Pipes
open LabelledRuns
variable {σ α φ : Type} {step : σ → α → σ → Prop} {start s t : σ} {as : List α} {a b : α} {f : φ}

/-- A step takes what it reads from the front and puts what it writes at the back. -/
structure Pipe (step : σ → α → σ → Prop) (start : σ) (φ : Type) where
  content : σ → List φ
  writes : α → Option φ
  reads : α → Option φ
  empty : content start = []
  moves : ∀ {s a t}, step s a t →
    content s ++ (writes a).toList = (reads a).toList ++ content t

theorem filterMap_snoc {β : Type} (g : α → Option β) (as : List α) (a : α) :
    (as ++ [a]).filterMap g = as.filterMap g ++ (g a).toList := by
  rw [List.filterMap_append, List.filterMap_cons]
  cases g a <;> rfl

theorem filterMap_singleton {β : Type} (g : α → Option β) (a : α) :
    [a].filterMap g = (g a).toList := by
  rw [List.filterMap_cons]
  cases g a <;> rfl

theorem filterMap_flatMap {β γ : Type} {g : α → List β} {h : β → Option γ} {u : α → Option γ}
    (each : ∀ a, (g a).filterMap h = (u a).toList) (as : List α) :
    (as.flatMap g).filterMap h = as.filterMap u := by
  induction as with
  | nil => rfl
  | cons a as ih =>
    rw [List.flatMap_cons, List.filterMap_append, ih, each, List.filterMap_cons]
    cases u a <;> rfl

theorem written_eq (P : Pipe step start φ) (run : Run step start as s) :
    as.filterMap P.writes = as.filterMap P.reads ++ P.content s := by
  induction run with
  | nil => simp [P.empty]
  | snoc _ last ih =>
    rw [filterMap_snoc, filterMap_snoc, ih, List.append_assoc, List.append_assoc, P.moves last]

variable [DecidableEq φ]

theorem count_read_le (P : Pipe step start φ) (run : Run step start as s) (f : φ) :
    (as.filterMap P.reads).count f ≤ (as.filterMap P.writes).count f := by
  rw [written_eq P run, List.count_append]
  omega

theorem countP_le_one {p : α → Bool} (once : ∀ {i j : Nat} {a b : α}, as[i]? = some a →
    p a = true → as[j]? = some b → p b = true → i = j) : as.countP p ≤ 1 := by
  induction as with
  | nil => simp
  | cons a as ih =>
    rw [List.countP_cons]
    have rest : as.countP p ≤ 1 := by
      apply ih
      intro i j b c here pb there pc
      have same := @once (i + 1) (j + 1) b c here pb there pc
      omega
    by_cases first : p a = true
    · have none : as.countP p = 0 := by
        rw [List.countP_eq_zero]
        intro b mem pb
        obtain ⟨j, there⟩ := List.mem_iff_getElem?.mp mem
        have same := @once 0 (j + 1) a b rfl first there pb
        omega
      simp [none, first]
    · simpa [first] using rest

theorem once_of_countP {p : α → Bool} (few : as.countP p ≤ 1) {i j : Nat} (here : as[i]? = some a)
    (pa : p a = true) (there : as[j]? = some b) (pb : p b = true) : i = j := by
  induction as generalizing i j with
  | nil => simp at here
  | cons c as ih =>
    rw [List.countP_cons] at few
    have later : ∀ {n : Nat} {d : α}, as[n]? = some d → p d = true → 0 < as.countP p := by
      intro n d found pd
      exact List.countP_pos_iff.mpr ⟨d, List.mem_of_getElem? found, pd⟩
    cases i with
    | zero =>
      cases j with
      | zero => rfl
      | succ j =>
        simp only [List.getElem?_cons_zero, Option.some.injEq] at here
        subst here
        have := later there pb
        simp only [pa, ↓reduceIte] at few
        omega
    | succ i =>
      cases j with
      | zero =>
        simp only [List.getElem?_cons_zero, Option.some.injEq] at there
        subst there
        have := later here pa
        simp only [pb, ↓reduceIte] at few
        omega
      | succ j =>
        have few' : as.countP p ≤ 1 := by omega
        rw [ih few' here there]

/-- A frame that is written at some point is read after that, if nothing was read early and nothing
    is left unread. -/
theorem read_later {reads writes : α → Option φ}
    (early : ∀ n, ((as.take n).filterMap reads).count f ≤ ((as.take n).filterMap writes).count f)
    (all : (as.filterMap writes).count f ≤ (as.filterMap reads).count f) {p : Nat}
    (here : as[p]? = some a) (written : writes a = some f) (unread : reads a ≠ some f) :
    ∃ q b, p < q ∧ as[q]? = some b ∧ reads b = some f := by
  have parts := parts_at here
  have before := early p
  have single : ((reads a).toList).count f = 0 := by
    cases frame : reads a with
    | none => rfl
    | some g =>
      rw [frame] at unread
      rw [Option.toList_some, List.count_singleton, if_neg]
      simpa using unread
  have after : 0 < ((as.drop (p + 1)).filterMap reads).count f := by
    rw [← parts] at all
    simp only [List.filterMap_append, filterMap_singleton, List.count_append, single, written,
      Option.toList_some, List.count_singleton_self] at all
    omega
  obtain ⟨b, mem, read⟩ := List.mem_filterMap.mp (List.count_pos_iff.mp after)
  obtain ⟨m, there⟩ := List.mem_iff_getElem?.mp mem
  rw [List.getElem?_drop] at there
  exact ⟨p + 1 + m, b, by omega, there, read⟩

end Pipes

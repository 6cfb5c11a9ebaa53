import TokimoBus.Outbound
import TokimoBus.Pipes

/-!
One outbound channel with its writer task and its stream. The writer takes the frames in
the order in which they were sent. Over a stream that is not cut off, what has been
written and what is still queued is what was sent, until the writer meets a frame that
`write_frame` rejects; it ends there, and the queue with it.
-/
namespace TokimoChannel
open TokimoFrame TokimoOutbound LabelledRuns Pipes

inductive ChannelAct where
  | push (f : BusFrame)
  | direct (f : BusFrame)
  | spawn
  | abort
  | writer (x : WriterAct)
  | tear (cut : Bytes)
  | stop

inductive ChannelStep (toVecNamed : Encoder) : Outbound → ChannelAct → Outbound → Prop where
  | push {o : Outbound} {f : BusFrame} (alive : o.IsOpen) :
      ChannelStep toVecNamed o (.push f) (o.push f)
  | direct {o : Outbound} {f : BusFrame} (here : o.writer = .unspawned)
      (fits : Fits toVecNamed f) : ChannelStep toVecNamed o (.direct f) (o.direct f)
  | spawn {o : Outbound} (here : o.writer = .unspawned) :
      ChannelStep toVecNamed o .spawn o.spawn
  | abort {o : Outbound} : ChannelStep toVecNamed o .abort o.abort
  | writer {o o' : Outbound} {x : WriterAct} (one : WriterStep toVecNamed o x o') :
      ChannelStep toVecNamed o (.writer x) o'
  | tear {o : Outbound} {cut : Bytes} : ChannelStep toVecNamed o (.tear cut) (o.tear cut)
  | stop {o : Outbound} : ChannelStep toVecNamed o .stop o.stop

variable {toVecNamed : Encoder} {o o' : Outbound} {a : ChannelAct} {acts : List ChannelAct}
  {ds qs : List BusFrame}

def ChannelAct.sends : ChannelAct → Option BusFrame
  | .push f => some f
  | _ => none

def ChannelAct.writes : ChannelAct → Option BusFrame
  | .direct f => some f
  | _ => none

def ChannelAct.wrote : ChannelAct → Option BusFrame
  | .writer (.wrote f) => some f
  | _ => none

def ChannelAct.cut : ChannelAct → Bool
  | .writer (.broke _ _) | .writer (.cancelled _) | .tear _ | .stop => true
  | _ => false

def pushed (acts : List ChannelAct) : List BusFrame := acts.filterMap ChannelAct.sends

def directed (acts : List ChannelAct) : List BusFrame := acts.filterMap ChannelAct.writes

def wrote (acts : List ChannelAct) : List BusFrame := acts.filterMap ChannelAct.wrote

/-- The frame in the writer's hands, then the queue. -/
def held (o : Outbound) : List BusFrame :=
  match o.writer with
  | .writing f => f :: o.queue
  | _ => o.queue

structure Ordered (acts : List ChannelAct) (o : Outbound) : Prop where
  rest : o.IsOpen → wrote acts ++ held o = pushed acts
  front : wrote acts <+: pushed acts

theorem ordered_step (h : ChannelStep toVecNamed o a o') (ordered : Ordered acts o) :
    Ordered (acts ++ [a]) o' := by
  obtain ⟨rest, front⟩ := ordered
  have ended : ∀ {b : ChannelAct} {o' : Outbound}, b.wrote = none → b.sends = none →
      o'.writer = .ended → Ordered (acts ++ [b]) o' := by
    intro b o' silent quiet finished
    constructor
    · intro alive
      exact absurd finished alive
    · simpa [wrote, pushed, filterMap_snoc, silent, quiet] using front
  have same : ∀ {b : ChannelAct} {o' : Outbound}, b.wrote = none → b.sends = none →
      (o'.IsOpen → o.IsOpen) → held o' = held o → Ordered (acts ++ [b]) o' := by
    intro b o' silent quiet opened keeps
    constructor
    · intro alive
      simpa [wrote, pushed, filterMap_snoc, silent, quiet, keeps] using rest (opened alive)
    · simpa [wrote, pushed, filterMap_snoc, silent, quiet] using front
  cases h with
  | @push f alive =>
    have longer : held (o.push f) = held o ++ [f] := by
      unfold held
      simp only [Outbound.push]
      split <;> rfl
    constructor
    · intro _
      have before := rest alive
      simp only [wrote, pushed, filterMap_snoc, ChannelAct.wrote, ChannelAct.sends, Option.toList,
        List.append_nil]
      rw [longer, ← List.append_assoc]
      exact congrArg (· ++ [f]) before
    · simp only [wrote, pushed, filterMap_snoc, ChannelAct.wrote, ChannelAct.sends, Option.toList,
        List.append_nil]
      exact List.IsPrefix.trans front (List.prefix_append _ _)
  | direct here | tear => exact same rfl rfl id rfl
  | spawn here => exact same rfl rfl (fun _ => by simp [Outbound.IsOpen, here]) (by
      simp [held, Outbound.spawn, here])
  | abort => exact same rfl rfl id rfl
  | stop => exact ended rfl rfl rfl
  | writer one =>
    cases one with
    | recv idle next =>
      exact same rfl rfl (fun _ => by simp [Outbound.IsOpen, idle]) (by simp [held, idle, next])
    | @wrote f bytes busy fits =>
      have before := rest (by simp [Outbound.IsOpen, busy])
      have split : held o = f :: o.queue := by simp [held, busy]
      rw [split] at before
      have now : TokimoChannel.wrote (acts ++ [.writer (.wrote f)]) ++ o.queue =
          pushed (acts ++ [.writer (.wrote f)]) := by
        simp only [TokimoChannel.wrote, pushed, filterMap_snoc, ChannelAct.wrote, ChannelAct.sends,
          Option.toList, List.append_nil, List.append_assoc, List.singleton_append]
        exact before
      exact ⟨fun _ => now, ⟨o.queue, now⟩⟩
    | rejected | broke | cancelledIdle | cancelledBusy => exact ended rfl rfl rfl

theorem ordered (run : Run (ChannelStep toVecNamed) Outbound.fresh acts o) : Ordered acts o := by
  refine run_history (p := fun acts o => Ordered acts o) ?_ ?_ run
  · exact ⟨fun _ => rfl, List.prefix_refl _⟩
  · intro acts o a o' _ step known
    exact ordered_step step known

theorem closed_run (run : Run (ChannelStep toVecNamed) o acts o') (closed : ¬ o.IsOpen) :
    ¬ o'.IsOpen := by
  have stays : ∀ {o₁ o₂ : Outbound} {b : ChannelAct}, ChannelStep toVecNamed o₁ b o₂ →
      o₁.writer = .ended → o₂.writer = .ended := by
    intro o₁ o₂ b step ended
    cases step with
    | spawn here =>
      rw [here] at ended
      cases ended
    | writer one => cases one <;> simp_all
    | stop => rfl
    | _ => exact ended
  have ended : o'.writer = .ended := by
    induction run with
    | nil => exact not_not.mp closed
    | snoc _ last ih => exact stays last ih
  exact not_not.mpr ended

def ChannelAct.streamed : ChannelAct → Option BusFrame
  | .direct f | .writer (.wrote f) => some f
  | _ => none

theorem streamed_le (run : Run (ChannelStep toVecNamed) Outbound.fresh acts o) (f : BusFrame) :
    (acts.filterMap ChannelAct.streamed).count f ≤
      (directed acts).count f + (pushed acts).count f := by
  have parts : ∀ acts : List ChannelAct, (acts.filterMap ChannelAct.streamed).count f =
      (directed acts).count f + (wrote acts).count f := by
    intro acts
    induction acts with
    | nil => rfl
    | cons a acts ih =>
      simp only [directed, wrote, List.filterMap_cons] at ih ⊢
      cases a with
      | direct g =>
        simp only [ChannelAct.streamed, ChannelAct.writes, ChannelAct.wrote, List.count_cons, ih]
        omega
      | writer x =>
        cases x with
        | wrote g =>
          simp only [ChannelAct.streamed, ChannelAct.writes, ChannelAct.wrote, List.count_cons, ih]
          omega
        | _ => simpa [ChannelAct.streamed, ChannelAct.writes, ChannelAct.wrote] using ih
      | _ => simpa [ChannelAct.streamed, ChannelAct.writes, ChannelAct.wrote] using ih
  rw [parts]
  have bound := (ordered run).front.sublist.count_le f
  omega

def ChannelAct.shakes : ChannelAct → Bool
  | .direct _ | .spawn | .tear _ => true
  | _ => false

def ChannelAct.tears : ChannelAct → Option Bytes
  | .tear cut => some cut
  | _ => none

theorem filterMap_shakes {β : Type} {g : ChannelAct → Option β}
    (quiet : ∀ a : ChannelAct, a.shakes = false → g a = none) (acts : List ChannelAct) :
    (acts.filter ChannelAct.shakes).filterMap g = acts.filterMap g := by
  induction acts with
  | nil => rfl
  | cons a acts ih =>
    cases shaken : a.shakes with
    | true => simp [shaken, List.filterMap_cons, ih]
    | false => simp [shaken, quiet a shaken, ih]

theorem directed_shakes (acts : List ChannelAct) :
    directed (acts.filter ChannelAct.shakes) = directed acts := by
  apply filterMap_shakes
  intro a quiet
  cases a <;> first | rfl | cases quiet

theorem tears_shakes (acts : List ChannelAct) :
    (acts.filter ChannelAct.shakes).filterMap ChannelAct.tears =
      acts.filterMap ChannelAct.tears := by
  apply filterMap_shakes
  intro a quiet
  cases a <;> first | rfl | cases quiet

theorem written_streamed (run : Run (ChannelStep toVecNamed) Outbound.fresh acts o) :
    o.written = acts.filterMap ChannelAct.streamed := by
  induction run with
  | nil => rfl
  | @snoc acts o o' a _ step ih =>
    rw [filterMap_snoc, ← ih]
    cases step with
    | writer one =>
      cases one <;> simp [ChannelAct.streamed, Outbound.direct, Outbound.stop, Outbound.tear]
    | _ =>
      simp [ChannelAct.streamed, Outbound.direct, Outbound.stop, Outbound.tear, Outbound.push,
        Outbound.spawn, Outbound.abort]

structure Silent (acts : List ChannelAct) (o : Outbound) : Prop where
  resting : o.writer = .unspawned ∨ o.writer = .ended
  unwritten : wrote acts = []
  torn : o.torn = (acts.filterMap ChannelAct.tears).getLastD []

theorem silent (run : Run (ChannelStep toVecNamed) Outbound.fresh acts o)
    (asleep : .spawn ∉ acts) : Silent acts o := by
  induction run with
  | nil => exact ⟨Or.inl rfl, rfl, rfl⟩
  | @snoc acts o o' a _ step ih =>
    obtain ⟨resting, unwritten, torn⟩ := ih fun mem => asleep (List.mem_append_left _ mem)
    have kept : ∀ {b : ChannelAct} {o' : Outbound}, b.wrote = none → b.tears = none →
        (o'.writer = o.writer ∨ o'.writer = .ended) → o'.torn = o.torn →
        Silent (acts ++ [b]) o' := by
      intro b o' unsent whole writer same
      constructor
      · rcases writer with old | stopped
        · rwa [old]
        · exact Or.inr stopped
      · simpa [wrote, filterMap_snoc, unsent] using unwritten
      · rw [filterMap_snoc, whole, Option.toList_none, List.append_nil, same, torn]
    cases step with
    | spawn => exact absurd (by simp) asleep
    | tear =>
      constructor
      · exact resting
      · simpa [wrote, filterMap_snoc, ChannelAct.wrote] using unwritten
      · simp [ChannelAct.tears, Outbound.tear]
    | writer one =>
      cases one with
      | recv state | wrote state | rejected state | broke state | cancelledIdle _ state
      | cancelledBusy _ state => rcases resting with fresh | ended <;> simp_all
    | stop => exact kept rfl rfl (Or.inr rfl) rfl
    | _ => exact kept rfl rfl (Or.inl rfl) rfl

/-- The writer comes after what was written past the channel. -/
theorem streamed_parts (run : Run (ChannelStep toVecNamed) Outbound.fresh acts o) :
    acts.filterMap ChannelAct.streamed = directed acts ++ wrote acts ∧
      (o.writer = .unspawned → wrote acts = []) := by
  induction run with
  | nil => exact ⟨rfl, fun _ => rfl⟩
  | @snoc acts o o' a _ step ih =>
    obtain ⟨parts, early⟩ := ih
    simp only [directed, wrote] at parts early ⊢
    simp only [filterMap_snoc, parts]
    cases step with
    | direct here =>
      simp [ChannelAct.streamed, ChannelAct.writes, ChannelAct.wrote, early here]
    | push | abort | tear =>
      constructor
      · simp [ChannelAct.streamed, ChannelAct.writes, ChannelAct.wrote]
      · intro fresh
        simp only [early fresh, ChannelAct.wrote, Option.toList_none, List.append_nil]
    | spawn | stop =>
      simp [ChannelAct.streamed, ChannelAct.writes, ChannelAct.wrote, Outbound.spawn,
        Outbound.stop]
    | writer one =>
      cases one with
      | recv state | wrote state | rejected state | broke state | cancelledIdle _ state
      | cancelledBusy _ state =>
        simp [ChannelAct.streamed, ChannelAct.writes, ChannelAct.wrote, Outbound.stop,
          Outbound.tear]

/-- The bytes of a frame that was cut off belong to the first frame that was not written. -/
structure Torn (toVecNamed : Encoder) (acts : List ChannelAct) (o : Outbound) : Prop where
  whole : o.IsOpen → o.torn = []
  part : ∃ rest, pushed acts = wrote acts ++ rest ∧ o.torn <+: rest.flatMap (frameBytes toVecNamed)

theorem ended_empty (run : Run (ChannelStep toVecNamed) Outbound.fresh acts o)
    (ended : o.writer = .ended) : held o = [] := by
  have dropped : o.writer = .ended → o.queue = [] := by
    refine run_history (p := fun _ o => o.writer = .ended → o.queue = []) ?_ ?_ run
    · intro now
      cases now
    · intro acts o a o' _ step known now
      cases step with
      | push alive => exact absurd now alive
      | stop => rfl
      | writer one =>
        cases one with
        | recv | wrote => cases now
        | rejected | broke | cancelledIdle | cancelledBusy => rfl
      | spawn => cases now
      | direct | abort | tear => exact known now
  simp [held, ended, dropped ended]

theorem streamed_counts (run : Run (ChannelStep toVecNamed) Outbound.fresh acts o) {f : BusFrame}
    (queued : (directed acts).count f = 0) :
    (o.IsOpen → (acts.filterMap ChannelAct.streamed).count f + (held o).count f =
      (pushed acts).count f) ∧
    (acts.filterMap ChannelAct.streamed).count f ≤ (pushed acts).count f := by
  obtain ⟨rest, front⟩ := ordered run
  rw [(streamed_parts run).1, List.count_append, queued, Nat.zero_add]
  refine ⟨fun alive => ?_, front.sublist.count_le f⟩
  rw [← rest alive, List.count_append]

theorem torn (run : Run (ChannelStep toVecNamed) Outbound.fresh acts o)
    (untorn : acts.filterMap ChannelAct.tears = []) : Torn toVecNamed acts o := by
  induction run with
  | nil => exact ⟨fun _ => rfl, [], rfl, List.prefix_refl _⟩
  | @snoc acts o o' a before step ih =>
    rw [filterMap_snoc, List.append_eq_nil_iff] at untorn
    obtain ⟨whole, rest, parts, part⟩ := ih untorn.1
    have front := (ordered before).rest
    have kept : ∀ {b : ChannelAct} {o' : Outbound}, b.wrote = none → b.sends = none →
        (o'.IsOpen → o.IsOpen) → o'.torn = o.torn → Torn toVecNamed (acts ++ [b]) o' := by
      intro b o' unsent silent alive same
      constructor
      · intro opened
        rw [same, whole (alive opened)]
      · refine ⟨rest, ?_, by rwa [same]⟩
        simpa [pushed, wrote, filterMap_snoc, unsent, silent] using parts
    cases step with
    | @push f alive =>
      refine ⟨fun _ => whole alive, rest ++ [f], ?_, ?_⟩
      · simp only [pushed, wrote, filterMap_snoc, ChannelAct.sends, ChannelAct.wrote,
          Option.toList_some, Option.toList_none, List.append_nil] at parts ⊢
        rw [parts, List.append_assoc]
      · rw [List.flatMap_append]
        exact List.IsPrefix.trans part (List.prefix_append _ _)
    | direct | abort => exact kept rfl rfl id rfl
    | spawn here => exact kept rfl rfl (fun _ => by simp [Outbound.IsOpen, here]) rfl
    | stop => exact kept rfl rfl (fun opened => absurd rfl opened) rfl
    | tear => simp [ChannelAct.tears] at untorn
    | writer one =>
      cases one with
      | recv idle => exact kept rfl rfl (fun _ => by simp [Outbound.IsOpen, idle]) rfl
      | rejected | cancelledIdle => exact kept rfl rfl (fun opened => absurd rfl opened) rfl
      | @wrote f bytes busy fits =>
        have alive : o.IsOpen := by simp [Outbound.IsOpen, busy]
        have now := (ordered (before.snoc (.writer (.wrote busy fits)))).rest
          (by simp [Outbound.IsOpen])
        constructor
        · intro _
          exact whole alive
        · refine ⟨_, now.symm, ?_⟩
          rw [Outbound.direct]
          simp [whole alive]
      | @broke f bytes cut busy fits piece | @cancelledBusy f bytes cut _ busy fits piece =>
        have alive : o.IsOpen := by simp [Outbound.IsOpen, busy]
        refine ⟨fun opened => absurd rfl opened, held o, ?_, ?_⟩
        · have now := front alive
          simp only [pushed, TokimoChannel.wrote, filterMap_snoc, ChannelAct.sends,
            ChannelAct.wrote, Option.toList_none, List.append_nil] at now ⊢
          exact now.symm
        · have first : frameBytes toVecNamed f = bytes := by
            unfold frameBytes
            rw [fits]
          simp only [held, busy, List.flatMap_cons, first]
          exact List.IsPrefix.trans piece (List.prefix_append _ _)

/-- The stream carries what was written past the channel, then what was sent, up to the point
    where it ended. -/
theorem wire_prefix (run : Run (ChannelStep toVecNamed) Outbound.fresh acts o)
    (untorn : acts.filterMap ChannelAct.tears = []) : o.wire toVecNamed <+:
      (directed acts).flatMap (frameBytes toVecNamed) ++
        (pushed acts).flatMap (frameBytes toVecNamed) := by
  obtain ⟨_, rest, parts, part⟩ := torn run untorn
  have order := (streamed_parts run).1
  rw [Outbound.wire, written_streamed run, order, parts, List.flatMap_append,
    List.flatMap_append, List.append_assoc]
  rw [List.prefix_append_right_inj, List.prefix_append_right_inj]
  exact part

theorem wire_unspawned (run : Run (ChannelStep toVecNamed) Outbound.fresh acts o)
    (asleep : .spawn ∉ acts) : o.wire toVecNamed =
      (directed acts).flatMap (frameBytes toVecNamed) ++
        (acts.filterMap ChannelAct.tears).getLastD [] := by
  obtain ⟨_, unwritten, torn⟩ := silent run asleep
  rw [Outbound.wire, written_streamed run, (streamed_parts run).1, unwritten, List.append_nil, torn]

/-- What the channel owes to the stream, by where its writer stands. -/
def Owes (toVecNamed : Encoder) (o : Outbound) (ds qs : List BusFrame) : Prop :=
  match o.writer with
  | .unspawned => o.written = ds ∧ o.queue = qs
  | .idle => o.written ++ o.queue = ds ++ qs
  | .writing f => o.written ++ f :: o.queue = ds ++ qs
  | .ended => o.queue = [] ∧ ∃ f ∈ qs, ¬ Fits toVecNamed f

structure Account (toVecNamed : Encoder) (ds qs : List BusFrame) (o : Outbound) : Prop where
  whole : o.torn = []
  written : ∀ f ∈ o.written, Fits toVecNamed f
  direct : ∀ f ∈ ds, Fits toVecNamed f
  owes : Owes toVecNamed o ds qs

theorem push_owes (f : BusFrame) (alive : o.IsOpen) (owes : Owes toVecNamed o ds qs) :
    Owes toVecNamed (o.push f) ds (qs ++ [f]) := by
  unfold Owes at owes ⊢
  cases writer : o.writer with
  | unspawned =>
    rw [writer] at owes
    simp [Outbound.push, writer, owes]
  | idle =>
    rw [writer] at owes
    simp [Outbound.push, writer, ← List.append_assoc, ← owes]
  | writing g =>
    rw [writer] at owes
    simp only [Outbound.push, writer]
    rw [← List.append_assoc, ← owes]
    simp
  | ended => exact absurd writer alive

theorem rejected_owes {f : BusFrame} {e : BusError} (busy : o.writer = .writing f)
    (refused : writeFrame toVecNamed f = .error e) (direct : ∀ f ∈ ds, Fits toVecNamed f)
    (owes : Owes toVecNamed o ds qs) : Owes toVecNamed o.stop ds qs := by
  have unfit : ¬ Fits toVecNamed f := by
    intro fits
    obtain ⟨bytes, eq⟩ := fits_iff_written.mp fits
    rw [refused] at eq
    cases eq
  unfold Owes at owes
  rw [busy] at owes
  have mem : f ∈ ds ++ qs := by
    rw [← owes]
    simp
  rcases List.mem_append.mp mem with early | queued
  · exact absurd (direct f early) unfit
  · exact ⟨rfl, f, queued, unfit⟩

theorem account_step (h : ChannelStep toVecNamed o a o') (uncut : a.cut = false)
    (account : Account toVecNamed ds qs o) :
    Account toVecNamed (ds ++ a.writes.toList) (qs ++ a.sends.toList) o' := by
  obtain ⟨whole, written, direct, owes⟩ := account
  cases h with
  | @push f alive =>
    simp only [ChannelAct.writes, ChannelAct.sends, Option.toList, List.append_nil]
    exact ⟨whole, written, direct, push_owes f alive owes⟩
  | @direct f here fit =>
    unfold Owes at owes
    rw [here] at owes
    simp only [ChannelAct.writes, ChannelAct.sends, Option.toList, List.append_nil]
    constructor
    · exact whole
    · simpa [Outbound.direct, or_imp, forall_and] using ⟨written, fit⟩
    · simpa [or_imp, forall_and] using ⟨direct, fit⟩
    · simp [Owes, Outbound.direct, here, owes]
  | spawn here =>
    unfold Owes at owes
    rw [here] at owes
    simp only [ChannelAct.writes, ChannelAct.sends, Option.toList, List.append_nil]
    exact ⟨whole, written, direct, by simp [Owes, Outbound.spawn, owes]⟩
  | abort =>
    simp only [ChannelAct.writes, ChannelAct.sends, Option.toList, List.append_nil]
    exact ⟨whole, written, direct, owes⟩
  | tear | stop => cases uncut
  | writer one =>
    simp only [ChannelAct.writes, ChannelAct.sends, Option.toList, List.append_nil]
    cases one with
    | recv idle next =>
      unfold Owes at owes
      rw [idle, next] at owes
      exact ⟨whole, written, direct, owes⟩
    | @wrote f bytes busy encoded =>
      have fit := fits_iff_written.mpr ⟨bytes, encoded⟩
      unfold Owes at owes
      rw [busy] at owes
      constructor
      · exact whole
      · simpa [Outbound.direct, or_imp, forall_and] using ⟨written, fit⟩
      · exact direct
      · simpa [Owes, Outbound.direct] using owes
    | rejected busy refused =>
      exact ⟨whole, written, direct, rejected_owes busy refused direct owes⟩
    | broke | cancelledIdle | cancelledBusy => cases uncut

theorem account (run : Run (ChannelStep toVecNamed) Outbound.fresh acts o)
    (uncut : ∀ a ∈ acts, a.cut = false) :
    Account toVecNamed (directed acts) (pushed acts) o := by
  have guarded := run_guarded (g := fun _ a => a.cut = false) run (fun a mem _ => uncut a mem)
  refine run_history (p := fun acts o => Account toVecNamed (directed acts) (pushed acts) o)
    ?_ ?_ guarded
  · constructor <;> simp [Outbound.fresh, directed, pushed, Owes]
  · intro acts o a o' _ step known
    have grown := account_step step.1 step.2 known
    rwa [directed, pushed, filterMap_snoc, filterMap_snoc]

def Drained (o : Outbound) : Prop := o.writer = .idle ∧ o.queue = [] ∨ o.writer = .ended

/-- The stream carries the frames that fit, whatever was queued before them, and the channel
    takes more. -/
def Delivered (toVecNamed : Encoder) (o : Outbound) (ds qs : List BusFrame) : Prop :=
  o.wire toVecNamed = (ds ++ qs.filter fun f => Fits toVecNamed f).flatMap (frameBytes toVecNamed) ∧
    o.IsOpen

theorem delivered_iff (run : Run (ChannelStep toVecNamed) Outbound.fresh acts o)
    (uncut : ∀ a ∈ acts, a.cut = false) (drained : Drained o) :
    Delivered toVecNamed o (directed acts) (pushed acts) ↔
      ∀ f ∈ pushed acts, Fits toVecNamed f := by
  obtain ⟨whole, written, direct, owes⟩ := account run uncut
  unfold Owes at owes
  rcases drained with ⟨idle, empty⟩ | ended
  · rw [idle, empty, List.append_nil] at owes
    have all : ∀ f ∈ pushed acts, Fits toVecNamed f := by
      intro f mem
      apply written f
      rw [owes]
      exact List.mem_append_right _ mem
    have kept : (pushed acts).filter (fun f => Fits toVecNamed f) = pushed acts := by
      simpa [List.filter_eq_self] using all
    constructor
    · intro _
      exact all
    · intro _
      constructor
      · rw [kept, Outbound.wire, owes, whole, List.append_nil]
      · simp [Outbound.IsOpen, idle]
  · rw [ended] at owes
    obtain ⟨_, f, mem, unfit⟩ := owes
    constructor
    · intro delivered
      exact absurd ended delivered.2
    · intro all
      exact absurd (all f mem) unfit

end TokimoChannel

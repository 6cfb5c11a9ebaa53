import TokimoBus.MessagePack

/-!
Records as maps from field names, read as a derived decoder reads them: a field is found by its
name, a name that occurs twice is refused, a name nobody asks for is passed over, and a missing
field takes its default where it has one. A sum type carries the name of its variant in a field
of its own, or around its content. `prune` takes chosen fields out of a value, at any depth.
-/
namespace Records
open MessagePack
variable {α β : Type}

abbrev Fields := List (String × Value)

inductive Key where
  | field (name : String)
  | index (i : Nat)
  deriving DecidableEq

abbrev Path := List Key

/-- Which of the places below a key are meant. -/
def under (key : Key) (gone : Path → Bool) : Path → Bool := fun p => gone (key :: p)

mutual
def prune (gone : Path → Bool) : Value → Value
  | .array xs => .array (pruneElements gone 0 xs)
  | .map fields => .map (pruneFields gone fields)
  | .nil => .nil
  | .bool b => .bool b
  | .uint n => .uint n
  | .str s => .str s

def pruneElements (gone : Path → Bool) : Nat → List Value → List Value
  | _, [] => []
  | i, x :: rest => prune (under (.index i) gone) x :: pruneElements gone (i + 1) rest

def pruneFields (gone : Path → Bool) : Fields → Fields
  | [] => []
  | (name, x) :: rest =>
    if gone [.field name] then pruneFields gone rest
    else (name, prune (under (.field name) gone) x) :: pruneFields gone rest
end

def occurrences (name : String) : Fields → List Value
  | [] => []
  | (other, x) :: rest =>
    if other = name then x :: occurrences name rest else occurrences name rest

def others (name : String) : Fields → Fields
  | [] => []
  | (other, x) :: rest =>
    if other = name then others name rest else (other, x) :: others name rest

def required (name : String) (decode : Value → Option α) (fields : Fields) : Option α :=
  match occurrences name fields with
  | [x] => decode x
  | _ => none

def defaulted (name : String) (default : α) (decode : Value → Option α) (fields : Fields) :
    Option α :=
  match occurrences name fields with
  | [] => some default
  | [x] => decode x
  | _ => none

def record (decode : Fields → Option α) : Value → Option α
  | .map fields => decode fields
  | _ => none

def nullable (decode : Value → Option α) : Value → Option (Option α)
  | .nil => some none
  | x => (decode x).map some

def listOf (decode : Value → Option α) : Value → Option (List α)
  | .array xs => xs.mapM decode
  | _ => none

/-- The variant's name stands in a field beside those of its content. -/
def tagged (tag : String) (decode : String → Fields → Option α) : Value → Option α
  | .map fields =>
    match occurrences tag fields with
    | [.str name] => decode name (others tag fields)
    | _ => none
  | _ => none

/-- The variant's name alone, or a map from the name to the content. -/
def variant (decode : String → Option Value → Option α) : Value → Option α
  | .str name => decode name none
  | .map [(name, x)] => decode name (some x)
  | _ => none

def text : Value → Option String
  | .str s => some s
  | _ => none

def flag : Value → Option Bool
  | .bool b => some b
  | _ => none

def word64 : Value → Option UInt64
  | .uint n => some n
  | _ => none

def word32 : Value → Option UInt32
  | .uint n => if n.toNat < 2 ^ 32 then some n.toUInt32 else none
  | _ => none

def word16 : Value → Option UInt16
  | .uint n => if n.toNat < 2 ^ 16 then some n.toUInt16 else none
  | _ => none

def word8 : Value → Option UInt8
  | .uint n => if n.toNat < 2 ^ 8 then some n.toUInt8 else none
  | _ => none

@[simp] theorem record_map (decode : Fields → Option α) (fields : Fields) :
    record decode (.map fields) = decode fields := rfl

@[simp] theorem variant_str (decode : String → Option Value → Option α) (name : String) :
    variant decode (.str name) = decode name none := rfl

@[simp] theorem variant_map (decode : String → Option Value → Option α) (name : String)
    (x : Value) : variant decode (.map [(name, x)]) = decode name (some x) := rfl

@[simp] theorem text_str (s : String) : text (.str s) = some s := rfl

@[simp] theorem flag_bool (b : Bool) : flag (.bool b) = some b := rfl

@[simp] theorem word64_uint (n : UInt64) : word64 (.uint n) = some n := rfl

@[simp] theorem word32_uint (n : UInt32) : word32 (.uint n.toUInt64) = some n := by
  have bound := n.toNat_lt
  simp only [word32, UInt32.toNat_toUInt64, UInt32.toUInt32_toUInt64]
  exact if_pos bound

@[simp] theorem word16_uint (n : UInt16) : word16 (.uint n.toUInt64) = some n := by
  have bound := n.toNat_lt
  simp only [word16, UInt16.toNat_toUInt64, UInt16.toUInt16_toUInt64]
  exact if_pos bound

@[simp] theorem word8_uint (n : UInt8) : word8 (.uint n.toUInt64) = some n := by
  have bound := n.toNat_lt
  simp only [word8, UInt8.toNat_toUInt64, UInt8.toUInt8_toUInt64]
  exact if_pos bound

mutual
/-- Nothing is taken out where nothing is meant. -/
theorem prune_keeps {gone : Path → Bool} (none : ∀ key p, gone (key :: p) = false) :
    ∀ x : Value, prune gone x = x
  | .array xs => by rw [prune, pruneElements_keeps none 0 xs]
  | .map fields => by rw [prune, pruneFields_keeps none fields]
  | .nil => rfl
  | .bool _ => rfl
  | .uint _ => rfl
  | .str _ => rfl

theorem pruneElements_keeps {gone : Path → Bool} (none : ∀ key p, gone (key :: p) = false) :
    ∀ (i : Nat) (xs : List Value), pruneElements gone i xs = xs
  | _, [] => rfl
  | i, x :: rest => by
    have inner : ∀ key p, under (.index i) gone (key :: p) = false :=
      fun key p => none (.index i) (key :: p)
    rw [pruneElements, prune_keeps inner x, pruneElements_keeps none (i + 1) rest]

theorem pruneFields_keeps {gone : Path → Bool} (none : ∀ key p, gone (key :: p) = false) :
    ∀ fields : Fields, pruneFields gone fields = fields
  | [] => rfl
  | (name, x) :: rest => by
    have inner : ∀ key p, under (.field name) gone (key :: p) = false :=
      fun key p => none (.field name) (key :: p)
    rw [pruneFields, none, prune_keeps inner x, pruneFields_keeps none rest]
    rfl
end

theorem occurrences_prune (gone : Path → Bool) (name : String) (fields : Fields) :
    occurrences name (pruneFields gone fields) = if gone [.field name] then [] else
      (occurrences name fields).map (prune (under (.field name) gone)) := by
  induction fields with
  | nil => simp [pruneFields, occurrences]
  | cons first rest ih =>
    obtain ⟨other, x⟩ := first
    by_cases same : other = name
    · subst same
      by_cases out : gone [.field other] = true
      · rw [if_pos out] at ih
        simp [pruneFields, out, ih]
      · rw [if_neg out] at ih
        simp [pruneFields, occurrences, out, ih]
    · by_cases out : gone [.field other] = true
      · simp [pruneFields, occurrences, out, same, ih]
      · simp [pruneFields, occurrences, out, same, ih]

theorem required_prune {gone : Path → Bool} {name : String} {y : α} {decode : Value → Option α}
    {fields : Fields} {x : Value} (kept : gone [.field name] = false)
    (here : occurrences name fields = [x])
    (read : decode (prune (under (.field name) gone) x) = some y) :
    required name decode (pruneFields gone fields) = some y := by
  unfold required
  rw [occurrences_prune, kept, here]
  exact read

theorem defaulted_prune {gone : Path → Bool} {name : String} {default y : α}
    {decode : Value → Option α} {fields : Fields} {x : Value}
    (here : occurrences name fields = [x])
    (read : decode (prune (under (.field name) gone) x) = some y) :
    defaulted name default decode (pruneFields gone fields) =
      some (if gone [.field name] then default else y) := by
  unfold defaulted
  rw [occurrences_prune, here]
  by_cases out : gone [.field name] = true
  · rw [if_pos out, if_pos out]
  · rw [if_neg out, if_neg out]
    exact read

theorem others_absent {name : String} {fields : Fields}
    (absent : occurrences name fields = []) : others name fields = fields := by
  induction fields with
  | nil => rfl
  | cons first rest ih =>
    obtain ⟨other, x⟩ := first
    by_cases same : other = name
    · simp [occurrences, same] at absent
    · simp only [occurrences, if_neg same] at absent
      simp only [others, if_neg same, ih absent]

theorem tagged_prune {gone : Path → Bool} {tag name : String}
    {decode : String → Fields → Option α} {fields : Fields} (kept : gone [.field tag] = false)
    (alone : occurrences tag fields = []) :
    tagged tag decode (prune gone (.map ((tag, .str name) :: fields))) =
      decode name (pruneFields gone fields) := by
  have absent : occurrences tag (pruneFields gone fields) = [] := by
    rw [occurrences_prune, alone]
    simp
  simp [prune, pruneFields, kept, tagged, occurrences, others, absent, others_absent absent]

theorem elements_prune {encode : α → Value} {decode : Value → Option α}
    {result : (Path → Bool) → α → α} {gone : Path → Bool}
    (each : ∀ i x, decode (prune (under (.index i) gone) (encode x)) =
      some (result (under (.index i) gone) x)) (xs : List α) (i : Nat) :
    (pruneElements gone i (xs.map encode)).mapM decode =
      some (xs.mapIdx fun j x => result (under (.index (i + j)) gone) x) := by
  induction xs generalizing i with
  | nil => rfl
  | cons x rest ih =>
    have later := ih (i + 1)
    simp only [List.map_cons, pruneElements, List.mapM_cons, each, later, List.mapIdx_cons]
    simp [Nat.add_assoc, Nat.add_comm 1]

theorem listOf_prune {encode : α → Value} {decode : Value → Option α}
    {result : (Path → Bool) → α → α} {gone : Path → Bool}
    (each : ∀ i x, decode (prune (under (.index i) gone) (encode x)) =
      some (result (under (.index i) gone) x)) (xs : List α) :
    listOf decode (prune gone (.array (xs.map encode))) =
      some (xs.mapIdx fun i x => result (under (.index i) gone) x) := by
  have whole := elements_prune each xs 0
  simp only [Nat.zero_add] at whole
  exact whole

theorem nullable_some {decode : Value → Option α} {x : Value} (solid : x ≠ .nil) :
    nullable decode x = (decode x).map some := by
  cases x with
  | nil => exact absurd rfl solid
  | _ => rfl

end Records

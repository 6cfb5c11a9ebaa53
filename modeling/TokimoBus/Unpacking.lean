import TokimoBus.MessagePack
import Mathlib.Tactic.Ring

/-!
The reader of MessagePack, for the formats that its writer uses: a marker byte says what
follows, and arrays and maps read their parts one after the other, down to a given depth. What
has been written is read back, with whatever follows it left over.
-/
namespace MessagePack
variable {α : Type}

/-- What the first byte of a value announces, with the length or the number that goes with it. -/
inductive Marker where
  | nil
  | bool (b : Bool)
  | uint (n : Nat)
  | str (n : Nat)
  | array (n : Nat)
  | map (n : Nat)
  deriving DecidableEq

def fromBigEndian (bytes : List UInt8) : Nat := bytes.foldl (fun n b => n * 256 + b.toNat) 0

def readNumber (width : Nat) (bytes : List UInt8) : Option (Nat × List UInt8) :=
  if width ≤ bytes.length then some (fromBigEndian (bytes.take width), bytes.drop width) else none

def announced (marker : Nat → Marker) (width : Nat) (bytes : List UInt8) :
    Option (Marker × List UInt8) :=
  (readNumber width bytes).map fun r => (marker r.1, r.2)

def wideMarker (code : Nat) (bytes : List UInt8) : Option (Marker × List UInt8) :=
  match code with
  | 0xc0 => some (.nil, bytes)
  | 0xc2 => some (.bool false, bytes)
  | 0xc3 => some (.bool true, bytes)
  | 0xcc => announced .uint 1 bytes
  | 0xcd => announced .uint 2 bytes
  | 0xce => announced .uint 4 bytes
  | 0xcf => announced .uint 8 bytes
  | 0xd9 => announced .str 1 bytes
  | 0xda => announced .str 2 bytes
  | 0xdb => announced .str 4 bytes
  | 0xdc => announced .array 2 bytes
  | 0xdd => announced .array 4 bytes
  | 0xde => announced .map 2 bytes
  | 0xdf => announced .map 4 bytes
  | _ => none

def readMarker : List UInt8 → Option (Marker × List UInt8)
  | [] => none
  | b :: bytes =>
    if b.toNat < 0x80 then some (.uint b.toNat, bytes)
    else if b.toNat < 0x90 then some (.map (b.toNat - 0x80), bytes)
    else if b.toNat < 0xa0 then some (.array (b.toNat - 0x90), bytes)
    else if b.toNat < 0xc0 then some (.str (b.toNat - 0xa0), bytes)
    else wideMarker b.toNat bytes

def readText (n : Nat) (bytes : List UInt8) : Option (String × List UInt8) :=
  if n ≤ bytes.length then
    (String.fromUTF8? ⟨(bytes.take n).toArray⟩).map fun s => (s, bytes.drop n)
  else none

def readString (bytes : List UInt8) : Option (String × List UInt8) :=
  match readMarker bytes with
  | some (.str n, bytes) => readText n bytes
  | _ => none

def readMany (read : List UInt8 → Option (α × List UInt8)) :
    Nat → List UInt8 → Option (List α × List UInt8)
  | 0, bytes => some ([], bytes)
  | n + 1, bytes => do
    let (x, bytes) ← read bytes
    let (xs, bytes) ← readMany read n bytes
    return (x :: xs, bytes)

def readField (read : List UInt8 → Option (α × List UInt8)) (bytes : List UInt8) :
    Option ((String × α) × List UInt8) := do
  let (key, bytes) ← readString bytes
  let (x, bytes) ← read bytes
  return ((key, x), bytes)

/-- Reads one value that is nested at most `depth` deep. -/
def readValue : Nat → List UInt8 → Option (Value × List UInt8)
  | 0, _ => none
  | depth + 1, bytes =>
    match readMarker bytes with
    | none => none
    | some (.nil, bytes) => some (.nil, bytes)
    | some (.bool b, bytes) => some (.bool b, bytes)
    | some (.uint n, bytes) => some (.uint (UInt64.ofNat n), bytes)
    | some (.str n, bytes) => (readText n bytes).map fun r => (.str r.1, r.2)
    | some (.array n, bytes) =>
      (readMany (readValue depth) n bytes).map fun r => (.array r.1, r.2)
    | some (.map n, bytes) =>
      (readMany (readField (readValue depth)) n bytes).map fun r => (.map r.1, r.2)

theorem bigEndian_length (width n : Nat) : (bigEndian width n).length = width := by
  induction width generalizing n with
  | zero => rfl
  | succ width ih => simp [bigEndian, ih]

theorem fromBigEndian_bigEndian (width n : Nat) :
    fromBigEndian (bigEndian width n) = n % 256 ^ width := by
  induction width generalizing n with
  | zero => simp [fromBigEndian, bigEndian, Nat.mod_one]
  | succ width ih =>
    have last : (UInt8.ofNat n).toNat = n % 256 := UInt8.toNat_ofNat'
    have front := ih (n / 256)
    unfold fromBigEndian at front ⊢
    rw [bigEndian, List.foldl_append, front, List.foldl_cons, List.foldl_nil, last, Nat.pow_succ',
      Nat.mod_mul]
    ring

theorem readNumber_written {width n : Nat} (small : n < 256 ^ width) (rest : List UInt8) :
    readNumber width (bigEndian width n ++ rest) = some (n, rest) := by
  have long : width ≤ (bigEndian width n ++ rest).length := by
    rw [List.length_append, bigEndian_length]
    omega
  have front : (bigEndian width n ++ rest).take width = bigEndian width n :=
    List.take_left' (bigEndian_length width n)
  have back : (bigEndian width n ++ rest).drop width = rest :=
    List.drop_left' (bigEndian_length width n)
  rw [readNumber, if_pos long, front, back, fromBigEndian_bigEndian, Nat.mod_eq_of_lt small]

theorem announced_written (marker : Nat → Marker) (width : Nat) {n : Nat} (small : n < 256 ^ width)
    (rest : List UInt8) :
    announced marker width (bigEndian width n ++ rest) = some (marker n, rest) := by
  rw [announced, readNumber_written small]
  rfl

theorem byte_small {n : Nat} (small : n < 256) : (UInt8.ofNat n).toNat = n := by
  rw [UInt8.toNat_ofNat', Nat.mod_eq_of_lt small]

theorem uint_marked {n : Nat} (small : n < 2 ^ 64) (rest : List UInt8) :
    readMarker (uintBytes n ++ rest) = some (.uint n, rest) := by
  unfold uintBytes
  split_ifs with one two three four
  · simp [readMarker, byte_small (show n < 256 by omega), one]
  · exact announced_written .uint 1 (by omega) rest
  · exact announced_written .uint 2 (by omega) rest
  · exact announced_written .uint 4 (by omega) rest
  · exact announced_written .uint 8 (by omega) rest

theorem str_marked {n : Nat} (small : n < 2 ^ 32) (rest : List UInt8) :
    readMarker (strHeader n ++ rest) = some (.str n, rest) := by
  unfold strHeader
  split_ifs with one two three
  · simp only [List.singleton_append, readMarker, byte_small (show 0xa0 + n < 256 by omega)]
    rw [if_neg (by omega), if_neg (by omega), if_neg (by omega), if_pos (by omega),
      Nat.add_sub_cancel_left]
  · exact announced_written .str 1 (by omega) rest
  · exact announced_written .str 2 (by omega) rest
  · exact announced_written .str 4 (by omega) rest

theorem array_marked {n : Nat} (small : n < 2 ^ 32) (rest : List UInt8) :
    readMarker (arrayHeader n ++ rest) = some (.array n, rest) := by
  unfold arrayHeader
  split_ifs with one two
  · simp only [List.singleton_append, readMarker, byte_small (show 0x90 + n < 256 by omega)]
    rw [if_neg (by omega), if_neg (by omega), if_pos (by omega), Nat.add_sub_cancel_left]
  · exact announced_written .array 2 (by omega) rest
  · exact announced_written .array 4 (by omega) rest

theorem map_marked {n : Nat} (small : n < 2 ^ 32) (rest : List UInt8) :
    readMarker (mapHeader n ++ rest) = some (.map n, rest) := by
  unfold mapHeader
  split_ifs with one two
  · simp only [List.singleton_append, readMarker, byte_small (show 0x80 + n < 256 by omega)]
    rw [if_neg (by omega), if_pos (by omega), Nat.add_sub_cancel_left]
  · exact announced_written .map 2 (by omega) rest
  · exact announced_written .map 4 (by omega) rest

theorem utf8_length (s : String) : s.toUTF8.data.toList.length = s.utf8ByteSize := rfl

theorem readText_written (s : String) (rest : List UInt8) :
    readText s.utf8ByteSize (s.toUTF8.data.toList ++ rest) = some (s, rest) := by
  have long : s.utf8ByteSize ≤ (s.toUTF8.data.toList ++ rest).length := by
    rw [List.length_append, utf8_length]
    omega
  have whole : String.fromUTF8? s.toUTF8 = some s := dif_pos s.isValidUTF8
  rw [readText, if_pos long, List.take_left' (utf8_length s), List.drop_left' (utf8_length s)]
  change (String.fromUTF8? s.toUTF8).map _ = _
  rw [whole]
  rfl

theorem readString_written {s : String} (small : s.utf8ByteSize < 2 ^ 32) (rest : List UInt8) :
    readString (strBytes s ++ rest) = some (s, rest) := by
  rw [readString, strBytes, List.append_assoc, str_marked small]
  exact readText_written s rest

inductive Shallow : Nat → Value → Prop where
  | nil (depth : Nat) : Shallow (depth + 1) .nil
  | bool (depth : Nat) (b : Bool) : Shallow (depth + 1) (.bool b)
  | uint (depth : Nat) (n : UInt64) : Shallow (depth + 1) (.uint n)
  | str (depth : Nat) (s : String) : Shallow (depth + 1) (.str s)
  | array {depth : Nat} {xs : List Value} (inner : ∀ x ∈ xs, Shallow depth x) :
      Shallow (depth + 1) (.array xs)
  | map {depth : Nat} {fields : List (String × Value)}
      (inner : ∀ field ∈ fields, Shallow depth field.2) : Shallow (depth + 1) (.map fields)

theorem fields_length_le (fields : List (String × Value)) :
    fields.length ≤ (fieldBytes fields).length := by
  induction fields with
  | nil => simp
  | cons first rest ih =>
    obtain ⟨key, x⟩ := first
    have := bytes_pos x
    simp only [fieldBytes, List.length_cons, List.length_append]
    omega

theorem elements_read {read : List UInt8 → Option (Value × List UInt8)} {xs : List Value}
    (each : ∀ x ∈ xs, ∀ rest, read (x.bytes ++ rest) = some (x, rest)) (rest : List UInt8) :
    readMany read xs.length (elementBytes xs ++ rest) = some (xs, rest) := by
  induction xs with
  | nil => rfl
  | cons x more ih =>
    have first := each x (by simp) (elementBytes more ++ rest)
    have later := ih fun y mem => each y (List.mem_cons_of_mem _ mem)
    simp only [List.length_cons, readMany, elementBytes, List.append_assoc, first]
    simp [later]

theorem fields_read {read : List UInt8 → Option (Value × List UInt8)}
    {fields : List (String × Value)} (small : (fieldBytes fields).length < 2 ^ 32)
    (each : ∀ field ∈ fields, ∀ rest, read (field.2.bytes ++ rest) = some (field.2, rest))
    (rest : List UInt8) :
    readMany (readField read) fields.length (fieldBytes fields ++ rest) = some (fields, rest) := by
  induction fields with
  | nil => rfl
  | cons first more ih =>
    obtain ⟨key, x⟩ := first
    simp only [fieldBytes, List.length_append] at small
    have long : key.utf8ByteSize ≤ (strBytes key).length := by
      rw [strBytes, List.length_append, utf8_length]
      omega
    have name := readString_written (show key.utf8ByteSize < 2 ^ 32 by omega)
      (x.bytes ++ (fieldBytes more ++ rest))
    have value := each (key, x) (by simp) (fieldBytes more ++ rest)
    have later := ih (by omega) fun y mem => each y (List.mem_cons_of_mem _ mem)
    simp only [List.length_cons, readMany, readField, fieldBytes, List.append_assoc, name]
    simp [value, later]

theorem element_length_le {xs : List Value} {x : Value} (mem : x ∈ xs) :
    x.bytes.length ≤ (elementBytes xs).length := by
  induction xs with
  | nil => cases mem
  | cons y more ih =>
    simp only [elementBytes, List.length_append]
    rcases List.mem_cons.mp mem with rfl | later
    · omega
    · have := ih later
      omega

/-- A value of less than 2^32 bytes is read back from what was written. -/
theorem readValue_written {depth : Nat} {x : Value} (shallow : Shallow depth x)
    (small : x.bytes.length < 2 ^ 32) (rest : List UInt8) :
    readValue depth (x.bytes ++ rest) = some (x, rest) := by
  induction shallow generalizing rest with
  | nil => rfl
  | bool _ b => cases b <;> rfl
  | uint _ n =>
    rw [readValue, Value.bytes, uint_marked n.toNat_lt]
    simp
  | str _ s =>
    have long : s.utf8ByteSize ≤ (Value.str s).bytes.length := by
      rw [Value.bytes, strBytes, List.length_append, utf8_length]
      omega
    rw [readValue, Value.bytes, strBytes, List.append_assoc, str_marked (by omega)]
    change (readText _ _).map _ = _
    rw [readText_written]
    rfl
  | @array depth xs inner ih =>
    have parts : (Value.array xs).bytes = arrayHeader xs.length ++ elementBytes xs := by
      rw [Value.bytes]
    have count := length_le_elementBytes xs
    rw [parts, List.length_append] at small
    have elements := elements_read (fun x mem => ih x mem (by
      have := element_length_le mem
      omega)) rest
    rw [readValue, parts, List.append_assoc, array_marked (by omega)]
    simp [elements]
  | @map depth fields inner ih =>
    have parts : (Value.map fields).bytes = mapHeader fields.length ++ fieldBytes fields := by
      rw [Value.bytes]
    have count := fields_length_le fields
    have each : ∀ field ∈ fields, ∀ rest,
        readValue depth (field.2.bytes ++ rest) = some (field.2, rest) := by
      intro field mem
      have inside : field.2.bytes.length ≤ (Value.map fields).bytes.length := field_length_le mem
      exact ih field mem (by omega)
    rw [parts, List.length_append] at small
    have read := fields_read (by omega) each rest
    rw [readValue, parts, List.append_assoc, map_marked (by omega)]
    simp [read]

end MessagePack

import Mathlib.Algebra.Ring.Nat
import Mathlib.Data.List.Basic

/-!
MessagePack for serde's data model of plain records: `nil`, booleans, unsigned
integers, strings, arrays and maps with string keys, each in the shortest format
that holds it. A length of 2^32 or more is written modulo 2^32.
-/
namespace MessagePack

inductive Value where
  | nil
  | bool (b : Bool)
  | uint (n : UInt64)
  | str (s : String)
  | array (xs : List Value)
  | map (fields : List (String × Value))

def bigEndian : Nat → Nat → List UInt8
  | 0, _ => []
  | width + 1, n => bigEndian width (n / 256) ++ [UInt8.ofNat n]

def uintBytes (n : Nat) : List UInt8 :=
  if n < 128 then [UInt8.ofNat n]
  else if n < 2 ^ 8 then 0xcc :: bigEndian 1 n
  else if n < 2 ^ 16 then 0xcd :: bigEndian 2 n
  else if n < 2 ^ 32 then 0xce :: bigEndian 4 n
  else 0xcf :: bigEndian 8 n

def strHeader (n : Nat) : List UInt8 :=
  if n < 32 then [UInt8.ofNat (0xa0 + n)]
  else if n < 2 ^ 8 then 0xd9 :: bigEndian 1 n
  else if n < 2 ^ 16 then 0xda :: bigEndian 2 n
  else 0xdb :: bigEndian 4 n

def arrayHeader (n : Nat) : List UInt8 :=
  if n < 16 then [UInt8.ofNat (0x90 + n)]
  else if n < 2 ^ 16 then 0xdc :: bigEndian 2 n
  else 0xdd :: bigEndian 4 n

def mapHeader (n : Nat) : List UInt8 :=
  if n < 16 then [UInt8.ofNat (0x80 + n)]
  else if n < 2 ^ 16 then 0xde :: bigEndian 2 n
  else 0xdf :: bigEndian 4 n

def strBytes (s : String) : List UInt8 :=
  strHeader s.utf8ByteSize ++ s.toUTF8.data.toList

mutual
def Value.bytes : Value → List UInt8
  | .nil => [0xc0]
  | .bool b => [if b then 0xc3 else 0xc2]
  | .uint n => uintBytes n.toNat
  | .str s => strBytes s
  | .array xs => arrayHeader xs.length ++ elementBytes xs
  | .map fields => mapHeader fields.length ++ fieldBytes fields

def elementBytes : List Value → List UInt8
  | [] => []
  | x :: rest => x.bytes ++ elementBytes rest

def fieldBytes : List (String × Value) → List UInt8
  | [] => []
  | (key, x) :: rest => strBytes key ++ x.bytes ++ fieldBytes rest
end

theorem uintBytes_pos (n : Nat) : 0 < (uintBytes n).length := by
  unfold uintBytes
  split_ifs <;> simp

theorem strHeader_pos (n : Nat) : 0 < (strHeader n).length := by
  unfold strHeader
  split_ifs <;> simp

theorem arrayHeader_pos (n : Nat) : 0 < (arrayHeader n).length := by
  unfold arrayHeader
  split_ifs <;> simp

theorem mapHeader_pos (n : Nat) : 0 < (mapHeader n).length := by
  unfold mapHeader
  split_ifs <;> simp

theorem bytes_pos (x : Value) : 0 < x.bytes.length := by
  cases x with
  | nil => simp [Value.bytes]
  | bool b => simp [Value.bytes]
  | uint n => simpa [Value.bytes] using uintBytes_pos n.toNat
  | str s =>
    have header := strHeader_pos s.utf8ByteSize
    simp only [Value.bytes, strBytes, List.length_append]
    omega
  | array xs =>
    have header := arrayHeader_pos xs.length
    simp only [Value.bytes, List.length_append]
    omega
  | map fields =>
    have header := mapHeader_pos fields.length
    simp only [Value.bytes, List.length_append]
    omega

theorem length_le_elementBytes (xs : List Value) : xs.length ≤ (elementBytes xs).length := by
  induction xs with
  | nil => simp
  | cons x rest ih =>
    have first := bytes_pos x
    simp only [elementBytes, List.length_cons, List.length_append]
    omega

theorem array_length_le (xs : List Value) : xs.length ≤ (Value.array xs).bytes.length := by
  have inner := length_le_elementBytes xs
  simp only [Value.bytes, List.length_append]
  omega

theorem field_length_le {fields : List (String × Value)} {key : String} {x : Value}
    (mem : (key, x) ∈ fields) : x.bytes.length ≤ (Value.map fields).bytes.length := by
  have inside : x.bytes.length ≤ (fieldBytes fields).length := by
    induction fields with
    | nil => simp at mem
    | cons first rest ih =>
      obtain ⟨key', y⟩ := first
      simp only [fieldBytes, List.length_append]
      rcases List.mem_cons.mp mem with here | later
      · cases here
        omega
      · have := ih later
        omega
  simp only [Value.bytes, List.length_append]
  omega

end MessagePack

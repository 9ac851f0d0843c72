import AddonBinding.Coercion.Basic
import AddonBinding.Proofs.MathFunctions
import AddonBinding.Proofs.RoundTrip
import AddonBinding.Source.Statement

namespace AddonBinding

namespace HostValue

-- The number that the host makes of a value.
def toDouble : HostValue → Double
  | .undefined => .nan
  | .null      => .zero
  | .boolean b => .ofInt b.toNat
  | .number x  => x
  | .text s    => (numberOfText? s).getD .nan

def isNumber : HostValue → Bool
  | .number _ => true
  | _         => false

def isText : HostValue → Bool
  | .text _ => true
  | _       => false

end HostValue

namespace Source

def utf8 (s : String) : List UInt8 :=
  s.toUTF8.toList

theorem toList_loop (bytes : ByteArray) (i : Nat) (taken : List UInt8) :
    ByteArray.toList.loop bytes i taken = taken.reverse ++ bytes.data.toList.drop i := by
  fun_induction ByteArray.toList.loop bytes i taken
  case case1 i taken h ih =>
    have hi : i < bytes.data.toList.length := h
    have hg : bytes.get! i = bytes.data.toList[i] := by
      rw [ByteArray.get!, getElem!_pos bytes.data i h, Array.getElem_toList]
    rw [ih, List.drop_eq_getElem_cons hi, hg, List.reverse_cons, List.append_assoc,
      List.singleton_append]
  case case2 i taken h =>
    rw [List.drop_eq_nil_of_le (Nat.le_of_not_lt h), List.append_nil]

theorem utf8_eq_data (s : String) : utf8 s = s.toByteArray.data.toList := by
  rw [utf8, String.toUTF8_eq_toByteArray, ByteArray.toList, toList_loop]
  rfl

theorem utf8_injective : Function.Injective utf8 := by
  intro s t h
  rw [utf8_eq_data, utf8_eq_data, Array.toList_inj] at h
  exact String.toByteArray_inj.mp <| ByteArray.ext h

theorem utf8_eq_flatMap (s : String) : utf8 s = s.toList.flatMap String.utf8EncodeChar := by
  have hs : s.toByteArray = s.toList.utf8Encode := by
    rw [← String.toByteArray_ofList, String.ofList_toList]
  rw [utf8_eq_data, hs, List.utf8Encode, List.toList_data_toByteArray]

theorem utf8_append (s t : String) : utf8 (s ++ t) = utf8 s ++ utf8 t := by
  simp only [utf8_eq_flatMap, String.toList_append, List.flatMap_append]

-- The types of integers. Small literals and numbers of arguments are of type `int`, and numbers of
-- bytes of type `size`. Neither has an upper bound here: what they count is in memory.
inductive IntegerKind where
  | int
  | size
  | byte
  | word (signed : Bool) (bits : Nat)
deriving DecidableEq

namespace IntegerKind

def convert : IntegerKind → Int → Option Int
  | .int, n              => some n
  | .size, n             => if 0 ≤ n then some n else none
  | .byte, n             => some (n % 256)
  | .word signed bits, n => some (reduce signed bits n)

-- The integral part of a number, which has to be a value of the type.
def ofDouble (k : IntegerKind) (x : Double) : Option Int :=
  x.truncate?.filter (fun n => k.convert n = some n)

-- The type that a value takes before arithmetic.
def promote : IntegerKind → IntegerKind
  | .byte             => .int
  | .word signed bits => if bits < 32 then .int else .word signed bits
  | k                 => k

def common (k l : IntegerKind) : Option IntegerKind :=
  match k.promote, l.promote with
  | .int, l => some l
  | k, .int => some k
  | k, l    => if k = l then some k else none

end IntegerKind

inductive Value where
  | void
  | bool (value : Bool)
  | integer (kind : IntegerKind) (value : Int)
  | floating (single : Bool) (value : Double)
  | char (byte : UInt8)
  -- The characters that a pointer points to.
  | chars (bytes : List UInt8)
  | text (bytes : List UInt8)
  -- The address of a variable of the running function.
  | address (name : String)
  -- A pointer parameter of the running function.
  | target (name : String)
  | object (number : Nat)
  | host (value : HostValue)
  | just (value : Value)
  -- A text of the host with its bytes at hand.
  | utf8 (bytes : List UInt8)
  -- The arguments of a call from the host, and whether it is one that creates an object.
  | info (args : List HostValue) (creates : Bool)
  -- The receiver of a call from the host, and the place for an answer.
  | receiver
  | answer

namespace Value

def toInteger (k : IntegerKind) : Value → Option Value
  | .integer _ n  => (k.convert n).map (.integer k)
  | .floating _ x => (k.ofDouble x).map (.integer k)
  | .char b       => if k = .byte then some (.integer .byte b.toNat) else none
  | _             => none

def toDouble : Value → Option Value
  | .floating _ x => some (.floating false x)
  | .integer _ n  => some (.floating false (.ofInt n))
  | _             => none

def toSingle : Value → Option Value
  | .floating _ x => some (.floating true x.toSingle)
  | _             => none

def toBool : Value → Option Value
  | .bool b => some (.bool b)
  | _       => none

-- A literal stands for all the bytes that it holds.
def toText : Value → Option Value
  | .text bytes  => some (.text bytes)
  | .chars bytes => some (.text bytes)
  | _            => none

-- Conversion to the type of a variable.
def convert : TypeName → Value → Option Value
  | .bool, v                => v.toBool
  | .int, v                 => v.toInteger .int
  | .size, v                => v.toInteger .size
  | .byte, v                => v.toInteger .byte
  | .word signed bits, v    => v.toInteger (.word signed bits)
  | .float, v               => v.toSingle
  | .double, v              => v.toDouble
  | .text, v                => v.toText
  | .named _, v             => some v
  | .pointer _, v           => some v
  | .constantReference t, v => v.convert t

-- A variable that is constructed from arguments.
def construct : TypeName → List Value → Option Value
  | .text, [.chars bytes, .integer _ n] => some (.text (bytes.take n.toNat))
  | .named "Nan::Utf8String", [.host v] => some (.utf8 (Source.utf8 v.toText))
  | _, _                                => none

-- The element at a position. Beyond its arguments a call has undefined ones.
def element : Value → Value → Option Value
  | .text bytes, .integer _ n  => if 0 ≤ n then bytes[n.toNat]?.map .char else none
  | .info args _, .integer _ n =>
    if 0 ≤ n then some (.host (args[n.toNat]?.getD .undefined)) else none
  | _, _                       => none

end Value

-- The value of a type's storage that holds a native value.
def stored (t : ScalarType) (v : NativeValue) : Value :=
  match t, v with
  | .text _, .text s        => .text (utf8 s)
  | .boolean, .boolean b    => .bool b
  | .float t, .float x      => .floating t.single x
  | .integer t, .integer n  => .integer (.word t.signed t.width.bits) n.toInt
  | .integer t, .unsigned n => .integer (.word t.signed t.width.bits) n.toNat
  | _, _                    => .void

namespace BinaryOperator

def compute (op : BinaryOperator) (m n : Int) : Option Int :=
  match op with
  | .add      => some (m + n)
  | .subtract => some (m - n)
  | .bitAnd   => if 0 ≤ m ∧ 0 ≤ n then some ↑(m.toNat &&& n.toNat) else none
  | .bitOr    => if 0 ≤ m ∧ 0 ≤ n then some ↑(m.toNat ||| n.toNat) else none
  | _         => none

def shift (op : BinaryOperator) (m n : Int) : Option Int :=
  match op with
  | .shiftLeft  => if 0 ≤ m ∧ 0 ≤ n then some ↑(m.toNat <<< n.toNat) else none
  | .shiftRight => if 0 ≤ m ∧ 0 ≤ n then some ↑(m.toNat >>> n.toNat) else none
  | _           => none

def compareIntegers (op : BinaryOperator) (m n : Int) : Option Bool :=
  match op with
  | .less    => some (m < n)
  | .greater => some (n < m)
  | .equal   => some (m = n)
  | _        => none

def compareDoubles (op : BinaryOperator) (x y : Double) : Option Bool :=
  match op with
  | .less    => some (x.lt y)
  | .greater => some (y.lt x)
  | .equal   => some (x.same y)
  | _        => none

-- A shift has the type of what is shifted. Otherwise both sides take a common type, which is that
-- of the result too.
def onIntegers (op : BinaryOperator) (k l : IntegerKind) (m n : Int) : Option Value :=
  match op.shift m n with
  | some r => (k.promote.convert r).map (.integer k.promote)
  | none   => do
    let kind ← k.common l
    let m ← kind.convert m
    let n ← kind.convert n
    match op.compareIntegers m n with
    | some b => return .bool b
    | none   => return .integer kind (← kind.convert (← op.compute m n))

def apply (op : BinaryOperator) : Value → Value → Option Value
  | .integer k m, .integer l n   => op.onIntegers k l m n
  | .floating _ x, .floating _ y => (op.compareDoubles x y).map .bool
  | .floating _ x, .integer _ n  => (op.compareDoubles x (.ofInt n)).map .bool
  | .text a, .text b             => if op = .add then some (.text (a ++ b)) else none
  | .text a, .chars b            => if op = .add then some (.text (a ++ b)) else none
  | _, _                         => none

end BinaryOperator

section Arithmetic

theorem IntegerKind.convert_size (n : Nat) : size.convert n = some ↑n := by
  simp [convert]

theorem IntegerKind.convert_word {bits n : Nat} (h : n < pow2 bits) :
    (word false bits).convert n = some ↑n :=
  congrArg some <| Int.emod_eq_of_lt (Int.natCast_nonneg n) (mod_cast h)

namespace BinaryOperator

theorem shift_left (m n : Nat) : shift .shiftLeft m n = some ↑(m <<< n) := by
  simp [shift]

theorem shift_right (m n : Nat) : shift .shiftRight m n = some ↑(m >>> n) := by
  simp [shift]

theorem compute_bitAnd (m n : Nat) : compute .bitAnd m n = some ↑(m &&& n) := by
  simp [compute]

theorem compute_bitOr (m n : Nat) : compute .bitOr m n = some ↑(m ||| n) := by
  simp [compute]

theorem compare_less (m n : Nat) : compareIntegers .less m n = some (decide (m < n)) := by
  simp [compareIntegers]

theorem compare_greater (m n : Nat) : compareIntegers .greater m n = some (decide (n < m)) := by
  simp [compareIntegers]

theorem compare_equal (m n : Nat) : compareIntegers .equal m n = some (decide (m = n)) := by
  simp [compareIntegers]

section Apply

variable {op : BinaryOperator} {k l kind : IntegerKind} {m n m' n' r r' : Int} {b : Bool}

-- No operator is of two kinds.
theorem shift_of_compareIntegers (h : op.compareIntegers m n = some b) (m' n' : Int) :
    op.shift m' n' = none := by
  cases op <;> first | rfl | cases h

theorem shift_of_compute (h : op.compute m n = some r) (m' n' : Int) : op.shift m' n' = none := by
  cases op <;> first | rfl | cases h

theorem compareIntegers_of_compute (h : op.compute m n = some r) (m' n' : Int) :
    op.compareIntegers m' n' = none := by
  cases op <;> first | rfl | cases h

theorem apply_shift (h : op.shift m n = some r) (hr : k.promote.convert r = some r') :
    op.apply (.integer k m) (.integer l n) = some (.integer k.promote r') := by
  simp only [apply, onIntegers, h, hr, Option.map_some]

variable (hk : k.common l = some kind) (hm : kind.convert m = some m')
  (hn : kind.convert n = some n')
include hk hm hn

theorem apply_compare (h : op.compareIntegers m' n' = some b) :
    op.apply (.integer k m) (.integer l n) = some (.bool b) := by
  simp only [apply, onIntegers, shift_of_compareIntegers h, hk, hm, hn, h, Option.bind_eq_bind,
    Option.bind_some, Option.pure_def]

theorem apply_compute (h : op.compute m' n' = some r) (hr : kind.convert r = some r') :
    op.apply (.integer k m) (.integer l n) = some (.integer kind r') := by
  simp only [apply, onIntegers, shift_of_compute h, hk, hm, hn, compareIntegers_of_compute h, h, hr,
    Option.bind_eq_bind, Option.bind_some, Option.pure_def]

end Apply

-- These operators are not applied to two values: the second operand is looked at only if the first
-- one leaves the result open.
theorem apply_lazy {op : BinaryOperator} (h : op = both ∨ op = either) (x y : Value) :
    op.apply x y = none := by
  rcases h with rfl | rfl
  all_goals
    cases x <;> cases y
    all_goals simp [apply, onIntegers, shift, compareIntegers, compute, compareDoubles]

theorem add_text (a b : List UInt8) : add.apply (.text a) (.text b) = some (.text (a ++ b)) :=
  rfl

theorem add_chars (a b : List UInt8) : add.apply (.text a) (.chars b) = some (.text (a ++ b)) :=
  rfl

theorem less_int (m n : Nat) :
    less.apply (.integer .int m) (.integer .int n) = some (.bool (m < n)) :=
  apply_compare rfl rfl rfl (compare_less m n)

theorem greater_int (m n : Nat) :
    greater.apply (.integer .int m) (.integer .int n) = some (.bool (n < m)) :=
  apply_compare rfl rfl rfl (compare_greater m n)

theorem equal_int (m n : Nat) :
    equal.apply (.integer .int m) (.integer .int n) = some (.bool (m = n)) :=
  apply_compare rfl rfl rfl (compare_equal m n)

end BinaryOperator

end Arithmetic

end Source

end AddonBinding

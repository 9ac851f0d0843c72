import AddonBinding.Proofs.SinglePrecision
import AddonBinding.Proofs.ShortestDigits
import AddonBinding.Proofs.SourceReader
import AddonBinding.Proofs.Values

-- How the source language evaluates expressions of numbers, as far as numbers, signs, differences,
-- parentheses and the constants of numeric limits make them up.

namespace AddonBinding

-- The number with the other sign, which a zero has too.
def Double.negated : Double → Double
  | .nan           => .nan
  | .infinite a    => .infinite !a
  | .finite a m hf => .finite (!a) m hf

-- The single precision number nearest to a decimal, without a double in between.
def Decimal.toSingle (d : Decimal) : Double :=
  .nearestSingle d.negative (d.digits * scaleUp d.exponent * Double.one) (scaleDown d.exponent)

namespace IntegerType

instance (t : IntegerType) (n : ℤ) : Decidable (t.Contains n) :=
  inferInstanceAs (Decidable (if t.signed then _ else _))

-- The result of an operation. A signed one that is not in the range is undefined.
def result? (t : IntegerType) (n : ℤ) : Option ℤ :=
  if t.signed then if t.Contains n then some n else none
  else some (reduce false t.width.bits n)

-- The type that two operands of at least 32 bits are converted to.
def common (t u : IntegerType) : IntegerType :=
  if t.width = u.width then ⟨t.width, t.signed && u.signed⟩
  else if t.width.bits < u.width.bits then u
  else t

end IntegerType

namespace Source

namespace Suffix

-- An integer has the first of these types that it fits.
def types (s : Suffix) : List IntegerType :=
  if s.wide then [⟨.w64, !s.unsigned⟩] else [⟨.w32, !s.unsigned⟩, ⟨.w64, !s.unsigned⟩]

-- The greatest integer that may be written with a suffix.
def greatest : Suffix → Nat
  | ⟨false, _⟩    => 2 ^ 63 - 1
  | ⟨true, false⟩ => 2 ^ 32 - 1
  | ⟨true, true⟩  => 2 ^ 64 - 1

end Suffix

namespace Arithmetic

inductive Term where
  | integer (value : Nat) (suffix : Suffix)
  | floating (value : Decimal) (single : Bool)
  | constant (name : String)
  | negation (operand : Term)
  | difference (left right : Term)
deriving DecidableEq

namespace Term

def ofExpr? : Expr → Option Term
  | .integer n s          => some (.integer n s)
  | .decimal n single     => some (.floating n.toDecimal single)
  | .call (.name n) []    => some (.constant n)
  | .negate e             => (ofExpr? e).map .negation
  | .binary .subtract a b => do return .difference (← ofExpr? a) (← ofExpr? b)
  | .parens e             => ofExpr? e
  | _                     => none

def ofText? (s : String) : Option Term :=
  Expr.read? s >>= ofExpr?

-- The integers that an expression is written with.
def integers : Term → List (Nat × Suffix)
  | .integer n s    => [(n, s)]
  | .negation a     => a.integers
  | .difference a b => a.integers ++ b.integers
  | _               => []

def decimals : Term → List (Decimal × Bool)
  | .floating d single => [(d, single)]
  | .negation a        => a.decimals
  | .difference a b    => a.decimals ++ b.decimals
  | _                  => []

end Term

inductive Operand where
  | integer (type : IntegerType) (value : ℤ)
  | floating (single : Bool) (value : Double)
deriving DecidableEq

namespace Operand

def value : Operand → Value
  | .integer t n       => .integer (.word t.signed t.width.bits) n
  | .floating single x => .floating single x

-- A number beyond the range of its type is no literal.
def ofDecimal? (d : Decimal) (single : Bool) : Option Operand :=
  let x := if single then d.toSingle else d.toDouble
  if x.isFinite then some (.floating single x) else none

def constants : List (String × Operand) :=
  [("std::numeric_limits<float>::infinity", .floating true (.infinite false)),
    ("std::numeric_limits<double>::infinity", .floating false (.infinite false)),
    ("std::numeric_limits<float>::quiet_NaN", .floating true .nan),
    ("std::numeric_limits<double>::quiet_NaN", .floating false .nan)]

def negate? : Operand → Option Operand
  | .integer t n       => (t.result? (-n)).map (.integer t)
  | .floating single x => some (.floating single x.negated)

-- Differences of other numbers are not needed.
def subtract? : Operand → Operand → Option Operand
  | .integer t m, .integer u n =>
    let k := t.common u
    let convert := reduce k.signed k.width.bits
    (k.result? (convert m - convert n)).map (.integer k)
  | _, _                       => none

end Operand

def Term.eval? : Term → Option Operand
  | .integer n suffix  => (suffix.types.find? (·.Contains n)).map (.integer · n)
  | .floating d single => Operand.ofDecimal? d single
  | .constant name     => Operand.constants.lookup name
  | .negation a        => a.eval? >>= Operand.negate?
  | .difference a b    => do (← a.eval?).subtract? (← b.eval?)

end Arithmetic

end Source

end AddonBinding

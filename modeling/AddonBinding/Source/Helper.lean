import AddonBinding.Coercion.Policy
import AddonBinding.Source.Item
import AddonBinding.Text.Blank

namespace AddonBinding.Source

inductive Helper where
  | isBlank
  | toNumeric
  | wrapToWord
  | decode (type : ScalarType)
deriving DecidableEq

namespace Helper

def name : Helper → String
  | .isBlank => "IsBlank"
  | .toNumeric => "ToNumeric"
  | .wrapToWord => "WrapToUint64"
  | .decode type => "Decode" ++ type.camelName

def isNeeded (policy : CoercionPolicy) (types : List ScalarType) : Helper → Bool
  | .isBlank => policy.numericStrings && types.any ScalarType.isNumeric
  | .toNumeric => types.any ScalarType.isNumeric
  | .wrapToWord => policy.integerOverflow == .wrap && types.any fun
    | .integer _ => true
    | _ => false
  | .decode type => types.contains type

-- Every helper comes after the ones that it calls; the types are in the order of their first use.
def needed (policy : CoercionPolicy) (types : List ScalarType) : List Helper :=
  ([.isBlank, .toNumeric, .wrapToWord].filter (isNeeded policy types))
    ++ types.eraseDups.map .decode

def hostValue : TypeName :=
  .named "v8::Local<v8::Value>"

def result : Expr :=
  .dereference (.name "out")

def succeed (value : Expr) : List Stmt :=
  [.assign result value, .returnBool true]

def fail : List Stmt :=
  [.returnBool false]

def hostNumber : Expr :=
  (Expr.callName "Nan::To<double>" [.name "value"]).method "FromJust"

-- The number of bytes and the first bits of a code point that starts with a byte; four bytes are
-- never blank.
def leadChoice : Stmt :=
  let lead := Expr.name "lead"
  let take (first : Expr) (length : Nat) : List Stmt :=
    [.assign (.name "cp") first, .assign (.name "len") (.natural length)]
  .choose (.binary .less lead (.hex 2 0x80)) (take lead 1)
    [.choose (.binary .equal (.parens (.binary .shiftRight lead (.natural 5))) (.hex 1 0x6))
      (take (.binary .bitAnd lead (.hex 2 0x1f)) 2)
      [.choose (.binary .equal (.parens (.binary .shiftRight lead (.natural 4))) (.hex 1 0xe))
        (take (.binary .bitAnd lead (.hex 2 0x0f)) 3)
        fail]]

def isBlankBody : List Stmt :=
  let i := Expr.name "i"
  let size := (Expr.name "text").method "size"
  let byteAt (position : Expr) : Expr := .cast .byte (.index (.name "text") position)
  [.declare false .size "i" (some (.natural 0)),
    .loop (.binary .less i size) [
      .declare true .byte "lead" (some (byteAt i)),
      .declare false (.word false 32) "cp" none,
      .declare false .size "len" none,
      leadChoice,
      .when (.binary .greater (.binary .add i (.name "len")) size) fail,
      .count .size "j" (.natural 1) (.name "len") [
        .assign (.name "cp") (.binary .bitOr
          (.parens (.binary .shiftLeft (.name "cp") (.natural 6)))
          (.parens (.binary .bitAnd (byteAt (.binary .add i (.name "j"))) (.hex 2 0x3f))))],
      .select (.name "cp") (Text.hostBlanks.map Char.toNat) [.exitSwitch] fail,
      .addAssign i (.name "len")],
    .returnBool true]

-- Texts count only where the policy says so, and blank ones only where it says that too.
def toNumericBody (policy : CoercionPolicy) : List Stmt :=
  [.when ((Expr.name "value").arrowMethod "IsNumber") (succeed hostNumber)]
    ++ (if policy.numericStrings then
      [.when ((Expr.name "value").arrowMethod "IsString") [
        .construct false (.named "Nan::Utf8String") "utf8" [.name "value"],
        .construct true .text "text"
          [.dereference (.name "utf8"), (Expr.name "utf8").method "length"],
        .when (.callName "IsBlank" [.name "text"])
          (if policy.emptyStringAsZero then succeed (.natural 0) else fail),
        .assign result hostNumber,
        .returnValue (.not (.callName "std::isnan" [result]))]]
    else [])
    ++ fail

def wrapBody : List Stmt :=
  [.declare true .double "reduced" (some (.callName "std::fmod"
      [.callName "std::trunc" [.name "number"], .whole (pow2 64)])),
    .declare true (.word false 64) "magnitude"
      (some (.cast (.word false 64) (.callName "std::fabs" [.name "reduced"]))),
    .returnValue (.conditional (.binary .less (.name "reduced") (.natural 0))
      (.binary .subtract (.natural 0) (.name "magnitude")) (.name "magnitude"))]

def textBody : List Stmt :=
  [.declare false (.named "Nan::MaybeLocal<v8::String>") "text"
      (some (.callName "Nan::To<v8::String>" [.name "value"])),
    .when ((Expr.name "text").method "IsEmpty") fail,
    .construct false (.named "Nan::Utf8String") "utf8" [(Expr.name "text").method "ToLocalChecked"],
    .evaluate ((Expr.name "out").arrowMethod "assign"
      [.dereference (.name "utf8"), (Expr.name "utf8").method "length"]),
    .returnBool true]

def booleanBody : List Stmt :=
  succeed ((Expr.callName "Nan::To<bool>" [.name "value"]).method "FromJust")

def numericStart : List Stmt :=
  [.declare false .double "number" none,
    .when (.not (.callName "ToNumeric" [.name "value", .addressOf (.name "number")])) fail]

def unlessFinite (name : String) : Stmt :=
  .when (.not (.callName "std::isfinite" [.name name])) fail

def floatBody (t : FloatType) : List Stmt :=
  numericStart
    ++ (if t.unrestricted then [] else [unlessFinite "number"])
    ++ (if t.single then
      [.declare true .float "narrowed" (some (.cast .float (.name "number")))]
        ++ (if t.unrestricted then [] else [unlessFinite "narrowed"])
        ++ succeed (.name "narrowed")
    else succeed (.name "number"))

def nanBody : NaNRule → List Stmt
  | .zero => succeed (.natural 0)
  | .reject => fail

def integerBody (policy : CoercionPolicy) (t : IntegerType) : List Stmt :=
  let storage := TypeName.storage (.integer t)
  let lower := Expr.whole t.range.least
  let upper := Expr.whole t.range.greatest
  let number := Expr.name "number"
  let isInfinite := Expr.callName "std::isinf" [number]
  numericStart
    ++ [.when (.callName "std::isnan" [number]) (nanBody policy.integerNaN)]
    ++ (match policy.integerOverflow with
      | .wrap =>
        [.when isInfinite (nanBody policy.integerNaN)]
          ++ succeed (.cast storage (.callName "WrapToUint64" [number]))
      | .clamp =>
        [.declare true .double "clamped"
            (some (.callName "std::min" [.callName "std::max" [number, lower], upper]))]
          ++ succeed (.cast storage (.callName "std::nearbyint" [.name "clamped"]))
      | .reject =>
        [.when isInfinite fail,
          .declare true .double "truncated" (some (.callName "std::trunc" [number])),
          .when (.binary .either (.binary .less (.name "truncated") lower)
            (.binary .greater (.name "truncated") upper)) fail]
          ++ succeed (.cast storage (.name "truncated")))

def decodeBody (policy : CoercionPolicy) : ScalarType → List Stmt
  | .text _ => textBody
  | .boolean => booleanBody
  | .float t => floatBody t
  | .integer t => integerBody policy t

def function (policy : CoercionPolicy) (h : Helper) : Function :=
  match h with
  | .isBlank => ⟨.bool, h.name, [(.constantReference .text, "text")], isBlankBody⟩
  | .toNumeric =>
    ⟨.bool, h.name, [(hostValue, "value"), (.pointer .double, "out")], toNumericBody policy⟩
  | .wrapToWord => ⟨.word false 64, h.name, [(.double, "number")], wrapBody⟩
  | .decode type =>
    ⟨.bool, h.name, [(hostValue, "value"), (.pointer (.storage type), "out")],
      decodeBody policy type⟩

end Helper

def helperItems (policy : CoercionPolicy) (types : List ScalarType) : List Item :=
  if types.isEmpty then []
  else [.helpers ((Helper.needed policy types).map (Helper.function policy))]

-- A call that converts `value` into `variable` and says whether it could.
def decodeCall (type : ScalarType) (value : Expr) (name : String) : Expr :=
  .callName (helperNamespace ++ "::" ++ (Helper.decode type).name) [value, .addressOf (.name name)]

def encodeExpr (type : ScalarType) (stored : Expr) : Expr :=
  match type with
  | .text _ => (Expr.callName "Nan::New" [stored]).method "ToLocalChecked"
  | .boolean => .callName "Nan::New<v8::Boolean>" [stored]
  | .integer _ | .float _ => .callName "Nan::New<v8::Number>" [.cast .double stored]

end AddonBinding.Source

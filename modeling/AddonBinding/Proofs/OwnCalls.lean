import AddonBinding.Proofs.LineStarts

namespace AddonBinding

open Source Text

namespace Source

namespace Expr

def name? : Expr → Option String
  | .name n => some n
  | _       => none

mutual

-- The names of the functions that are called, in the order of the source. Methods belong to their
-- objects.
def calls : Expr → List String
  | .call f args                                       => f.name?.toList ++ f.calls ++ allCalls args
  | .dot e _ | .arrow e _ | .cast _ e | .negate e      => e.calls
  | .dereference e | .addressOf e | .not e | .parens e => e.calls
  | .index a b | .binary _ a b                         => a.calls ++ b.calls
  | .conditional c a b                                 => c.calls ++ a.calls ++ b.calls
  | _                                                  => []

def allCalls : List Expr → List String
  | []        => []
  | e :: rest => e.calls ++ allCalls rest

end

@[simp]
theorem calls_withSign (e : Expr) (negative : Bool) : (e.withSign negative).calls = e.calls := by
  cases negative <;> simp [withSign, calls]

@[simp]
theorem calls_whole (n : ℤ) : (whole n).calls = [] := by
  simp [whole, calls]

end Expr

namespace Stmt

mutual

def calls : Stmt → List String
  | .declare _ _ _ value | .leave value => value.elim [] Expr.calls
  | .construct _ _ _ args               => Expr.allCalls args
  | .assign a b | .addAssign a b        => a.calls ++ b.calls
  | .evaluate e                         => e.calls
  | .exitSwitch                         => []
  | .choose c yes no                    => c.calls ++ allCalls yes ++ allCalls no
  | .loop c body                        => c.calls ++ allCalls body
  | .count _ _ first last body          => first.calls ++ last.calls ++ allCalls body
  | .select e _ hit other               => e.calls ++ allCalls hit ++ allCalls other

def allCalls : List Stmt → List String
  | []        => []
  | s :: rest => s.calls ++ allCalls rest

end

theorem allCalls_eq_flatMap (body : List Stmt) : allCalls body = body.flatMap calls := by
  induction body
  case nil     => rfl
  case cons hi => rw [allCalls, List.flatMap_cons, hi]

end Stmt

-- The host and the libraries define these functions.
def isLibrary (function : String) : Bool :=
  ["Nan::", "std::", "v8::"].any (Begins · function)

-- The calls of functions that the source has to define.
def ownCalls (body : List Stmt) : List String :=
  (Stmt.allCalls body).filter (!isLibrary ·)

-- Literals at most refer to the limits of types.
theorem filter_calls_ofNative (t : ScalarType) (v : NativeValue) :
    (Expr.ofNative t v).calls.filter (!isLibrary ·) = [] := by
  have hx (t : FloatType) (x : Double) :
      (Expr.ofDouble t x).calls.filter (!isLibrary ·) = [] := by
    cases x <;> simp [Expr.ofDouble, Expr.numericLimit, Expr.callName, Expr.calls, Expr.allCalls,
      Expr.name?, isLibrary, Begins]
  cases v
  case text      => rfl
  case boolean   => rfl
  case unsigned  => rfl
  case integer n =>
    simp only [Expr.ofNative, Expr.ofInteger]
    split <;> simp [Expr.calls]
  case float x   => cases t <;> exact hx ..

theorem ownCalls_append (body body' : List Stmt) :
    ownCalls (body ++ body') = ownCalls body ++ ownCalls body' := by
  simp [ownCalls, Stmt.allCalls_eq_flatMap]

theorem ownCalls_cons (s s' : Stmt) (body : List Stmt) :
    ownCalls (s :: s' :: body) = ownCalls [s] ++ ownCalls (s' :: body) :=
  ownCalls_append [s] (s' :: body)

theorem ownCalls_map {α : Type} {f : α → Stmt} {g : α → List String}
    (h : ∀ a, ownCalls [f a] = g a) (l : List α) : ownCalls (l.map f) = l.flatMap g := by
  induction l
  case nil         => rfl
  case cons a l hi =>
    rw [List.map_cons, List.flatMap_cons, ← h a, ← hi, ← ownCalls_append, List.singleton_append]

namespace Helper

-- The helpers that a helper calls.
def uses (policy : CoercionPolicy) : Helper → List Helper
  | .toNumeric           => if policy.numericStrings then [isBlank] else []
  | .decode (.float _)   => [toNumeric]
  | .decode (.integer _) => toNumeric :: if policy.integerOverflow = .wrap then [wrapToWord] else []
  | _                    => []

theorem ownCalls_function (policy : CoercionPolicy) (h : Helper) :
    ownCalls (function policy h).body = (uses policy h).map name := by
  obtain ⟨numericStrings, emptyStringAsZero, integerNaN, integerOverflow⟩ := policy
  cases h
  case isBlank    => rfl
  case wrapToWord => rfl
  case toNumeric  => cases numericStrings <;> cases emptyStringAsZero <;> rfl
  case decode t   =>
    cases t
    case text    => rfl
    case boolean => rfl
    case float t =>
      obtain ⟨single, unrestricted⟩ := t
      cases single <;> cases unrestricted <;> rfl
    case integer =>
      cases integerNaN <;> cases integerOverflow <;>
        simp +decide [ownCalls, function, decodeBody, integerBody, numericStart, nanBody, succeed,
          fail, Stmt.when, Stmt.returnBool, Stmt.allCalls, Stmt.calls, Expr.callName, Expr.calls,
          Expr.allCalls, Expr.name?, uses, name]

end Helper

end Source

section Plans

variable {plan : InterfacePlan} {className : String}

-- How the helper of a type is called outside of its namespace.
def decodeName (t : ScalarType) : String :=
  "widl::Decode" ++ t.camelName

theorem isLibrary_decodeName (t : ScalarType) : isLibrary (decodeName t) = false := by
  simp [isLibrary, decodeName, Begins]

theorem calls_decodeCall (t : ScalarType) (value : Expr) (name : String) :
    (decodeCall t value name).calls = decodeName t :: value.calls := by
  have hn : helperNamespace ++ "::" ++ (Helper.decode t).name = decodeName t := by
    simp [← String.toList_inj, helperNamespace, Helper.name, decodeName]
  simp [decodeCall, hn, Expr.callName, Expr.calls, Expr.allCalls, Expr.name?]

theorem ownCalls_throwing (message : String) : ownCalls (throwing (.text message)) = [] :=
  rfl

theorem ownCalls_unwrapSelf (className : String) : ownCalls [unwrapSelf className] = [] := by
  simp [ownCalls, unwrapSelf, Stmt.allCalls, Stmt.calls, Expr.callName, Expr.calls, Expr.allCalls,
    Expr.method, Expr.name?, isLibrary, Begins]

theorem ownCalls_when (condition : Expr) (body : List Stmt) :
    ownCalls [.when condition body] =
      condition.calls.filter (!isLibrary ·) ++ ownCalls body := by
  simp [ownCalls, Stmt.when, Stmt.allCalls, Stmt.calls]

namespace AttributePlan

theorem ownCalls_getterEntry (className : String) (a : AttributePlan) :
    ownCalls (a.getterEntry className).body = [] := by
  have he : ownCalls [answer (encodeExpr a.type (selfField a.field))] = [] := by
    cases a.type <;> rfl
  rw [getterEntry, ownCalls_cons, ownCalls_unwrapSelf, he, List.nil_append]

theorem ownCalls_setterEntry (className setter : String) (a : AttributePlan) :
    ownCalls (a.setterEntry className setter).body = [decodeName a.type] := by
  rw [setterEntry, ownCalls_cons, ownCalls_cons, ownCalls_cons, ownCalls_unwrapSelf, ownCalls_when,
    ownCalls_throwing, Expr.calls, calls_decodeCall]
  have hd : ownCalls [.declare false (.storage a.type) "decoded"
      (some (.ofNative a.type a.type.zero))] = [] := by
    simpa [ownCalls, Stmt.allCalls, Stmt.calls] using filter_calls_ofNative a.type a.type.zero
  have ha : ownCalls [.assign (selfField a.field) (.name "decoded")] = [] := rfl
  simp [hd, ha, isLibrary_decodeName, Expr.calls]

theorem ownCalls_registration (a : AttributePlan) : ownCalls [a.registration] = [] := by
  have hf : a.flagsExpr.calls = [] := by
    unfold flagsExpr
    split <;> rfl
  have hs : (a.setter?.elim (Expr.natural 0) Expr.name).calls = [] := by
    cases a.setter? <;> rfl
  simp +decide [registration, ownCalls, Stmt.allCalls, Stmt.calls, Expr.callName, Expr.arrowMethod,
    Expr.method, hostName, Expr.calls, Expr.allCalls, Expr.name?, hf, hs]

end AttributePlan

namespace ConstructorPlan

variable {c : ConstructorPlan}

theorem ownCalls_decodeArgument (n : Nat) (q : ParameterPlan) :
    ownCalls [c.decodeArgument n q] = [decodeName q.type] := by
  unfold decodeArgument
  rw [ownCalls_when, ownCalls_throwing]
  split <;> simp [Expr.calls, calls_decodeCall, isLibrary_decodeName]

theorem ownCalls_argumentVariable (q : ParameterPlan) : ownCalls [argumentVariable q] = [] := by
  simpa [ownCalls, argumentVariable, Stmt.allCalls, Stmt.calls] using
    filter_calls_ofNative q.type q.initial

theorem ownCalls_body (c : ConstructorPlan) :
    ownCalls c.body = c.parameters.map (decodeName ·.type) := by
  have ha : ownCalls [.when c.arityCondition c.arityThrow] = [] := by
    have hc : c.arityCondition.calls = [] := by
      unfold arityCondition
      split <;> rfl
    rw [ownCalls_when, hc]
    rfl
  have hv : ownCalls (c.parameters.map argumentVariable) = [] := by
    rw [ownCalls_map (g := fun _ => []) ownCalls_argumentVariable]
    simp
  have hd (g : ParameterPlan × Nat → Stmt) (hg : ∀ q n, g (q, n) = c.decodeArgument n q) :
      ownCalls (c.parameters.zipIdx.map g) = c.parameters.map (decodeName ·.type) := by
    calc
      _ = c.parameters.zipIdx.map (fun q => decodeName q.1.type) := by
        rw [ownCalls_map (g := fun q => [decodeName q.1.type]) fun q =>
          hg q.1 q.2 ▸ ownCalls_decodeArgument q.2 q.1, ← List.map_eq_flatMap]
      _ = (c.parameters.zipIdx.map Prod.fst).map (decodeName ·.type) := by
        rw [List.map_map]
        rfl
      _ = c.parameters.map (decodeName ·.type) := by rw [List.zipIdx_map_fst]
  have hf : ownCalls
      (c.parameters.map fun q => .assign (selfField (q.name ++ "_")) (.name q.name)) = [] := by
    rw [ownCalls_map (g := fun _ => []) (fun _ => rfl)]
    simp
  have hs : ownCalls (throwing (.text
      ("Failed to construct '" ++ c.interface ++ "': Please use the 'new' operator."))) = [] := rfl
  simp only [body, ownCalls_append, ownCalls_cons, ha, hv, hd, implies_true, hf, ownCalls_when, hs]
  simp [ownCalls, answer, Stmt.allCalls, Stmt.calls, Expr.method, Expr.arrowMethod, Expr.calls,
    Expr.allCalls, Expr.name?]

end ConstructorPlan

namespace InterfacePlan

theorem ownCalls_initEntry (plan : InterfacePlan) : ownCalls plan.initEntry.body = [] := by
  have hr : ownCalls (plan.fragments.flatMap Fragment.registrations) = [] := by
    rw [registrations_eq, ownCalls_map AttributePlan.ownCalls_registration]
    simp
  simp only [initEntry, ownCalls_append, hr]
  rfl

-- The types of the values that come from the host: arguments first, then assignments.
def convertedTypes (plan : InterfacePlan) : List ScalarType :=
  plan.constructor.parameters.map (·.type) ++ (plan.attributes.filter (·.writable)).map (·.type)

theorem ownCalls_entryPoints (plan : InterfacePlan) :
    plan.entryPoints.flatMap (fun e => ownCalls e.body) = plan.convertedTypes.map decodeName := by
  have ha (a : AttributePlan) :
      (a.fragment plan.name).definitions.flatMap (fun e => ownCalls e.body) =
        if a.writable then [decodeName a.type] else [] := by
    cases hw : a.writable
    all_goals simp [AttributePlan.fragment, AttributePlan.ownCalls_getterEntry,
      AttributePlan.ownCalls_setterEntry, AttributePlan.setter?, hw]
  have hw : plan.attributes.flatMap (fun a => if a.writable then [decodeName a.type] else []) =
      ((plan.attributes.filter (·.writable)).map (·.type)).map decodeName := by
    induction plan.attributes
    case nil => rfl
    case cons a _ hi => cases h : a.writable <;> simp [h, hi]
  simp only [entryPoints, fragments, List.flatMap_cons, ownCalls_initEntry, List.flatMap_append,
    List.flatMap_assoc, List.flatMap_map, ha, hw]
  simp [ConstructorPlan.fragment, ConstructorPlan.ownCalls_body, convertedTypes]

end InterfacePlan

end Plans

-- A class is not called like one of the namespaces.
theorem isLibrary_symbol {c : String} (hc : Identifier.Usable c) (m : String) :
    isLibrary (c ++ "::" ++ m) = false := by
  have hn {n : String} (hr : Identifier.isReserved n) : c.toList ≠ n.toList := by
    intro he
    cases String.toList_inj.mp he
    simp [hc.unreserved] at hr
  refine List.any_eq_false.mpr fun s hs hb => ?_
  have ⟨rest, hr⟩ : Begins s (c ++ "::" ++ m) := of_decide_eq_true hb
  have ht := congrArg (List.takeWhile (· ≠ ':')) hr
  rw [takeWhile_symbol hc] at ht
  simp only [List.mem_cons, List.not_mem_nil, or_false] at hs
  rcases hs with rfl | rfl | rfl
  · exact hn (n := "Nan") (by decide) (by simpa using ht.symm)
  · exact hn (n := "std") (by decide) (by simpa using ht.symm)
  · exact hn (n := "v8") (by decide) (by simpa using ht.symm)

namespace CompiledUnit

variable {options : Options} {plans : List InterfacePlan}

theorem ownCalls_initAllEntry (h : Accepted plans) :
    ownCalls (initAllEntry plans).body = plans.map (·.name ++ "::Init") := by
  have hc : Stmt.allCalls (initAllEntry plans).body = plans.map (·.name ++ "::Init") := by
    rw [Stmt.allCalls_eq_flatMap, initAllEntry, List.flatMap_map, List.map_eq_flatMap]
    rfl
  rw [ownCalls, hc, List.filter_eq_self, List.forall_mem_map]
  intro plan hp
  have hl := isLibrary_symbol (h.named plan hp).name "Init"
  rw [String.append_assoc] at hl
  rw [Bool.not_eq_true']
  exact hl

theorem ownCalls_entryPoints (h : Accepted plans) :
    (ofPlans options plans).entryPoints.flatMap (fun e => ownCalls e.body) =
      (plans.flatMap (·.convertedTypes)).map decodeName ++ plans.map (·.name ++ "::Init") := by
  rw [entryPoints_ofPlans, List.flatMap_append, List.flatMap_assoc]
  simp only [InterfacePlan.ownCalls_entryPoints, List.flatMap_singleton, ownCalls_initAllEntry h,
    List.map_flatMap]

end CompiledUnit

end AddonBinding

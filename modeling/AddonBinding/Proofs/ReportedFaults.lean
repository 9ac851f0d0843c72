import AddonBinding.Compile
import AddonBinding.Proofs.Planning

namespace AddonBinding

-- The faults of declarations in their order, with one for each declaration that has any. Whether a
-- declaration has a fault can depend on the ones before it.
inductive Listed {α : Type} (fault : List α → α → Fault → Prop) :
    List α → List α → List Fault → Prop
  | nil {earlier} : Listed fault earlier [] []
  | accept {earlier a l fs} (h : ∀ f, ¬fault earlier a f) (r : Listed fault (earlier ++ [a]) l fs) :
      Listed fault earlier (a :: l) fs
  | refuse {earlier a l f fs} (h : fault earlier a f) (r : Listed fault (earlier ++ [a]) l fs) :
      Listed fault earlier (a :: l) (f :: fs)

namespace Role

inductive Refuses (r : Role) (name : String) : Fault → Prop
  | invalid (h : ¬Identifier.WellFormed name) : Refuses r name (.invalidIdentifier name r)
  | reserved (h : Identifier.WellFormed name) (hr : Identifier.isReserved name) :
      Refuses r name (.reservedIdentifier name r)

inductive RefusesMember (r : Role) (i : Interface) (name : String) : Fault → Prop
  | name {f} (h : r.Refuses name f) : RefusesMember r i name f
  | shared (h : Identifier.Usable name) (hn : name = i.name) :
      RefusesMember r i name (.sharedName i.name r)

end Role

namespace Interface

-- Of several things that are wrong with a declaration the first is reported. The order is the one
-- of the constructors.
inductive AttributeFault (i : Interface) (earlier : List Attribute) (a : Attribute) : Fault → Prop
  | name {f} (h : (Role.attribute i.name).RefusesMember i a.name f) : AttributeFault i earlier a f
  | repeated {b} (hn : i.MemberName a.name) (hb : b ∈ earlier) (h : b.name = a.name) :
      AttributeFault i earlier a (.repeatedAttribute i.name a.name)
  | type (hn : i.MemberName a.name) (hf : ∀ b ∈ earlier, b.name ≠ a.name)
      (h : ∀ t, ¬ScalarType.Names a.type t) :
      AttributeFault i earlier a (.unsupportedType a.type (some (.attribute i.name a.name)))

-- A parameter that can stand after the earlier ones as far as its name goes.
structure ParameterName (i : Interface) (earlier : List Parameter) (p : Parameter) : Prop where
  member : i.MemberName p.name
  fresh  : ∀ b ∈ earlier, b.name ≠ p.name

-- The first parameter that needs no argument and whose name can stand where it is.
inductive FirstOptional (i : Interface) : List Parameter → List Parameter → Parameter → Prop
  | head {earlier p ps} (hn : i.ParameterName earlier p) (hd : p.hasDefault) :
      FirstOptional i earlier (p :: ps) p
  | tail {earlier p ps q} (h : i.ParameterName earlier p → p.hasDefault = false)
      (r : FirstOptional i (earlier ++ [p]) ps q) : FirstOptional i earlier (p :: ps) q

-- A parameter that can stand after the earlier ones.
structure Placed (i : Interface) (earlier : List Parameter) (p : Parameter) : Prop where
  name  : i.ParameterName earlier p
  order : p.hasDefault = false → ∀ q, ¬i.FirstOptional [] earlier q

-- What keeps a parameter from the attribute that it is to initialise.
inductive BindingFault (i : Interface) (p : Parameter) : Fault → Prop
  | type (h : ∀ t, ¬ScalarType.Names p.type t) :
      BindingFault i p (.unsupportedType p.type (some (.parameter i.name p.name)))
  | unbound {t} (ht : ScalarType.Names p.type t) (h : ∀ a ∈ i.attributes, a.name ≠ p.name) :
      BindingFault i p (.noSuchAttribute i.name p.name)
  | otherType {t a u} (ht : ScalarType.Names p.type t) (ha : a ∈ i.attributes)
      (hn : a.name = p.name) (hu : ScalarType.Names a.type u) (h : u ≠ t) :
      BindingFault i p (.differentTypes i.name p.name t u)
  | default {t a literal} (ht : ScalarType.Names p.type t) (ha : a ∈ i.attributes)
      (hn : a.name = p.name) (hu : ScalarType.Names a.type t) (hl : p.default = some literal)
      (h : t.ofLiteral? literal = none) :
      BindingFault i p (.invalidDefault i.name p.name literal t)

inductive ParameterFault (i : Interface) (earlier : List Parameter) (p : Parameter) : Fault → Prop
  | name {f} (h : (Role.parameter i.name).RefusesMember i p.name f) : ParameterFault i earlier p f
  | repeated {b} (hn : i.MemberName p.name) (hb : b ∈ earlier) (h : b.name = p.name) :
      ParameterFault i earlier p (.repeatedParameter i.name p.name)
  | order {q} (hn : i.ParameterName earlier p) (hr : p.hasDefault = false)
      (h : i.FirstOptional [] earlier q) :
      ParameterFault i earlier p (.requiredAfterOptional i.name p.name q.name)
  | binding {f} (hp : i.Placed earlier p) (h : i.BindingFault p f) : ParameterFault i earlier p f

-- The parameters are looked at only if there is no fault in the name and in the attributes.
inductive Faults (i : Interface) : List Fault → Prop
  | early {ns fs} (hn : Listed (fun _ => Role.interface.Refuses) [] [i.name] ns)
      (ha : Listed i.AttributeFault [] i.attributes fs) (h : ns ++ fs ≠ []) : Faults i (ns ++ fs)
  | late {fs} (hn : Listed (fun _ => Role.interface.Refuses) [] [i.name] [])
      (ha : Listed i.AttributeFault [] i.attributes [])
      (hp : Listed i.ParameterFault [] i.constructor fs) : Faults i fs

end Interface

-- A further declaration of an interface is reported with the last one before it and is not looked
-- at otherwise.
inductive UnitFaults : List Interface → List Interface → List Fault → Prop
  | nil {earlier} : UnitFaults earlier [] []
  | repeated {before b after i l fs} (hb : b.name = i.name) (ha : ∀ c ∈ after, c.name ≠ i.name)
      (r : UnitFaults (before ++ b :: after ++ [i]) l fs) :
      UnitFaults (before ++ b :: after) (i :: l)
        (.repeatedInterface i.name (before.length + 1) ((before ++ b :: after).length + 1) :: fs)
  | own {earlier i l gs fs} (hn : ∀ b ∈ earlier, b.name ≠ i.name) (h : i.Faults gs)
      (r : UnitFaults (earlier ++ [i]) l fs) : UnitFaults earlier (i :: l) (gs ++ fs)

inductive CompileFaults (options : Options) (interfaces : List Interface) : List Fault → Prop
  | mk {ns fs} (hn : Listed (fun _ => Role.module.Refuses) [] [options.moduleName] ns)
      (h : UnitFaults [] interfaces fs) : CompileFaults options interfaces (ns ++ fs)

section Listed

variable {α β : Type} {fault : List α → α → Fault → Prop} {g : List α → α → Except Fault β}
variable {earlier l : List α} {fs : List Fault}

theorem listed_nil_iff : Listed fault earlier [] fs ↔ fs = [] := by
  constructor
  case mp  =>
    intro h
    cases h
    rfl
  case mpr => exact fun h => h ▸ .nil

theorem listed_cons_of_accept {a : α} (ha : ∀ f, ¬fault earlier a f) :
    Listed fault earlier (a :: l) fs ↔ Listed fault (earlier ++ [a]) l fs := by
  constructor
  case mpr => exact .accept ha
  case mp  =>
    intro h
    cases h with
    | accept _ r => exact r
    | refuse h _ => exact absurd h <| ha _

-- A declaration has one fault at most, so that the first one of the list is known.
theorem listed_cons_of_refuse {a : α} {f : Fault} (ha : ∀ g, fault earlier a g ↔ f = g) :
    Listed fault earlier (a :: l) fs ↔ ∃ gs, Listed fault (earlier ++ [a]) l gs ∧ f :: gs = fs := by
  constructor
  case mpr =>
    rintro ⟨gs, r, rfl⟩
    exact .refuse (ha f |>.mpr rfl) r
  case mp =>
    intro h
    cases h with
    | accept hn _ => exact absurd (ha f |>.mpr rfl) <| hn f
    | refuse h r  => exact ⟨_, r, by rw [ha _ |>.mp h]⟩

theorem listed_iff (h : ∀ earlier a f, g earlier a = .error f ↔ fault earlier a f) :
    Listed fault earlier l fs ↔ faultsOf (withEarlier g earlier l) = fs := by
  induction l generalizing earlier fs
  case nil => exact listed_nil_iff.trans eq_comm
  case cons a l hi =>
    cases hg : g earlier a
    case ok v =>
      have he : faultsOf (withEarlier g earlier (a :: l)) =
          faultsOf (withEarlier g (earlier ++ [a]) l) := by
        simp [withEarlier, faultsOf, hg]
      rw [he, ← hi]
      refine listed_cons_of_accept fun f hf => ?_
      rw [← h, hg] at hf
      cases hf
    case error f =>
      have he : faultsOf (withEarlier g earlier (a :: l)) =
          f :: faultsOf (withEarlier g (earlier ++ [a]) l) := by
        simp [withEarlier, faultsOf, hg]
      have hf (f') : fault earlier a f' ↔ f = f' := by rw [← h, hg, Except.error.injEq]
      rw [he, listed_cons_of_refuse hf]
      simp only [hi, exists_eq_left']

end Listed

section Declarations

variable {r : Role} {name : String} {i : Interface} {f : Fault}

theorem Role.check_eq_error_iff : r.check name = .error f ↔ r.Refuses name f := by
  rw [check, ite_error_eq_error_iff, ite_error_eq_error_iff]
  have hv : (!Identifier.isValid name) = true ↔ ¬Identifier.WellFormed name := by
    rw [Bool.not_eq_true', ← Bool.not_eq_true, Identifier.isValid_iff]
  rw [hv, not_not]
  constructor
  case mp =>
    rintro (⟨h, rfl⟩ | ⟨h, ⟨hr, rfl⟩ | ⟨_, h'⟩⟩)
    · exact .invalid h
    · exact .reserved h hr
    · contradiction
  case mpr =>
    rintro (h | ⟨h, hr⟩)
    · exact .inl ⟨h, rfl⟩
    · exact .inr ⟨h, .inl ⟨hr, rfl⟩⟩

theorem Role.checkMember_eq_error_iff :
    r.checkMember i.name name = .error f ↔ r.RefusesMember i name f := by
  rw [checkMember, check_bind_eq_error_iff, check_eq_error_iff, check_eq_ok_iff,
    ite_throw_eq_error_iff]
  constructor
  case mp =>
    rintro (h | ⟨h, ⟨hn, rfl⟩ | ⟨_, h'⟩⟩)
    · exact .name h
    · exact .shared h hn
    · contradiction
  case mpr =>
    rintro (h | ⟨h, hn⟩)
    · exact .inl h
    · exact .inr ⟨h, .inl ⟨hn, rfl⟩⟩

theorem Member.typeOf_eq_error_iff {m : Member} {tag : String} :
    m.typeOf tag = .error f ↔ (∀ t, ¬ScalarType.Names tag t) ∧ .unsupportedType tag (some m) = f := by
  simp only [← ScalarType.ofTag?_eq_some_iff, typeOf]
  cases ScalarType.ofTag? tag <;> simp

namespace Interface

theorem any_name_iff {α : Type} {l : List α} {key : α → String} :
    l.any (key · == name) ↔ ∃ b ∈ l, key b = name := by
  simp

theorem attributeType_eq_error_iff {earlier : List Attribute} {a : Attribute} :
    i.attributeType earlier a = .error f ↔ i.AttributeFault earlier a f := by
  rw [attributeType, check_bind_eq_error_iff, Role.checkMember_eq_error_iff,
    Role.checkMember_eq_ok_iff]
  simp only [throw_bind, ite_throw_eq_error_iff, any_name_iff, bind_eq_error_iff,
    Member.typeOf_eq_error_iff, pure_ne_error, and_false, exists_false, or_false]
  constructor
  case mp =>
    rintro (h | ⟨hn, ⟨⟨b, hb, h⟩, rfl⟩ | ⟨hf, h, rfl⟩⟩)
    · exact .name h
    · exact .repeated hn hb h
    · exact .type hn (fun b hb h => hf ⟨b, hb, h⟩) h
  case mpr =>
    rintro (h | ⟨hn, hb, h⟩ | ⟨hn, hf, h⟩)
    · exact .inl h
    · exact .inr ⟨hn, .inl ⟨⟨_, hb, h⟩, rfl⟩⟩
    · refine .inr ⟨hn, .inr ⟨?_, h, rfl⟩⟩
      rintro ⟨b, hb, h⟩
      exact hf b hb h

section Parameters

variable {earlier ps : List Parameter} {p : Parameter} {attributes : List AttributePlan}

theorem parameterName_iff :
    i.ParameterName earlier p ↔ i.checkParameterName earlier p = .ok () := by
  rw [checkParameterName_eq_ok_iff]
  exact ⟨fun ⟨h₁, h₂⟩ => ⟨h₁, h₂⟩, fun ⟨h₁, h₂⟩ => ⟨h₁, h₂⟩⟩

theorem isOk_checkParameterName :
    (i.checkParameterName earlier p).isOk ↔ i.ParameterName earlier p := by
  rw [parameterName_iff]
  cases i.checkParameterName earlier p <;> simp [Except.isOk, Except.toBool]

theorem firstOptional?_eq_some_iff :
    i.firstOptional? earlier ps = some name ↔ ∃ q, i.FirstOptional earlier ps q ∧ q.name = name := by
  induction ps generalizing earlier
  case nil =>
    constructor
    case mp  => simp [firstOptional?]
    case mpr =>
      rintro ⟨_, h, _⟩
      cases h
  case cons p ps hi =>
    rw [firstOptional?]
    split
    case isTrue h =>
      obtain ⟨hd, hn⟩ := Bool.and_eq_true _ _ ▸ h
      have hn := isOk_checkParameterName.mp hn
      constructor
      case mp  => exact fun he => ⟨p, .head hn hd, Option.some.inj he⟩
      case mpr =>
        rintro ⟨_, h, he⟩
        cases h with
        | head     => rw [he]
        | tail h _ => exact absurd hd <| Bool.not_eq_true _ |>.mpr <| h hn
    case isFalse h =>
      have hf (hn : i.ParameterName earlier p) : p.hasDefault = false := by
        simpa [isOk_checkParameterName.mpr hn] using h
      rw [hi]
      constructor
      case mp  =>
        rintro ⟨q, h, he⟩
        exact ⟨q, .tail hf h, he⟩
      case mpr =>
        rintro ⟨q, h, he⟩
        cases h with
        | head hn hd => exact absurd hd <| Bool.not_eq_true _ |>.mpr <| hf hn
        | tail _ h   => exact ⟨q, h, he⟩

theorem placed_iff : i.Placed earlier p ↔
    i.ParameterName earlier p ∧ (p.hasDefault ∨ i.firstOptional? [] earlier = none) := by
  have ho : (∀ q, ¬i.FirstOptional [] earlier q) ↔ i.firstOptional? [] earlier = none := by
    simp [Option.eq_none_iff_forall_ne_some, firstOptional?_eq_some_iff]
  have hp : i.Placed earlier p ↔ i.ParameterName earlier p ∧
      (p.hasDefault = false → ∀ q, ¬i.FirstOptional [] earlier q) :=
    ⟨fun ⟨h₁, h₂⟩ => ⟨h₁, h₂⟩, fun ⟨h₁, h₂⟩ => ⟨h₁, h₂⟩⟩
  rw [hp, ho]
  cases p.hasDefault <;> simp

theorem checkParameterName_eq_error_iff :
    i.checkParameterName earlier p = .error f ↔ (Role.parameter i.name).RefusesMember i p.name f ∨
      i.MemberName p.name ∧ (∃ b ∈ earlier, b.name = p.name) ∧
        .repeatedParameter i.name p.name = f := by
  rw [checkParameterName, check_bind_eq_error_iff, Role.checkMember_eq_error_iff,
    Role.checkMember_eq_ok_iff, ite_throw_eq_error_iff, any_name_iff]
  simp [pure_ne_error]

theorem parameterDefault_eq_error_iff {t : ScalarType} :
    i.parameterDefault p t = .error f ↔ ∃ literal, p.default = some literal ∧
      t.ofLiteral? literal = none ∧ .invalidDefault i.name p.name literal t = f := by
  unfold parameterDefault
  cases hd : p.default
  case none         => simp
  case some literal => cases hl : t.ofLiteral? literal <;> simp [hl]

theorem planParameter_eq_error_iff_bindParameter :
    i.planParameter attributes earlier p = .error f ↔ i.checkParameterName earlier p = .error f ∨
      (i.ParameterName earlier p ∧ p.hasDefault = false ∧
        ∃ o, i.firstOptional? [] earlier = some o ∧ .requiredAfterOptional i.name p.name o = f) ∨
      (i.ParameterName earlier p ∧ (p.hasDefault ∨ i.firstOptional? [] earlier = none)) ∧
        i.bindParameter attributes p = .error f := by
  rw [planParameter, check_bind_eq_error_iff, ← parameterName_iff]
  simp only [throw_bind]
  cases p.hasDefault <;> cases i.firstOptional? [] earlier
  all_goals simp [throw, throwThe, MonadExceptOf.throw]

section Attributes

variable (ha : i.planAttributes = .ok attributes)

include ha

theorem find?_planned_eq_none_iff :
    attributes.find? (·.name == name) = none ↔ ∀ a ∈ i.attributes, a.name ≠ name := by
  have h := planned_names <| planAttributes_planned ha
  have hm : (∀ n ∈ attributes.map (·.name), n ≠ name) ↔ ∀ n ∈ i.attributes.map (·.name), n ≠ name := by
    rw [h]
  simpa using hm

theorem exists_find?_planned_iff {t : ScalarType} :
    (∃ q, attributes.find? (·.name == name) = some q ∧ q.type = t) ↔
      ∃ a ∈ i.attributes, a.name = name ∧ ScalarType.Names a.type t := by
  have hd := planAttributes_distinct ha
  constructor
  case mp =>
    rintro ⟨q, hf, rfl⟩
    have ⟨hm, hn⟩ := find?_name_eq_some_iff hd |>.mp hf
    have ⟨a, ham, han, hat⟩ := exists_of_forall₂_right (planned_attributes ha) hm
    exact ⟨a, ham, han.symm.trans hn, hat⟩
  case mpr =>
    rintro ⟨a, ham, han, hat⟩
    have ⟨q, hm, hn, ht⟩ := exists_of_forall₂_left (planned_attributes ha) ham
    exact ⟨q, find?_name_eq_some_iff hd |>.mpr ⟨hm, hn.trans han⟩, ht.unique hat⟩

theorem bindParameter_eq_error_iff :
    i.bindParameter attributes p = .error f ↔ i.BindingFault p f := by
  rw [bindParameter, bind_eq_error_iff, Member.typeOf_eq_error_iff]
  simp only [Member.typeOf_eq_ok_iff, throw_bind]
  constructor
  case mp =>
    rintro (⟨h, rfl⟩ | ⟨t, ht, h⟩)
    · exact .type h
    · split at h
      case _ hf =>
        cases h
        exact .unbound ht <| find?_planned_eq_none_iff ha |>.mp hf
      case _ q hf =>
        obtain ⟨a, ham, han, hat⟩ := exists_find?_planned_iff ha |>.mp ⟨q, hf, rfl⟩
        rw [ite_throw_eq_error_iff, bind_eq_error_iff, parameterDefault_eq_error_iff] at h
        rcases h with ⟨hq, rfl⟩ | ⟨hq, ⟨literal, hl, h, rfl⟩ | ⟨_, _, h⟩⟩
        · exact .otherType ht ham han hat hq
        · exact .default ht ham han (not_not.mp hq ▸ hat) hl h
        · exact absurd h pure_ne_error
  case mpr =>
    intro h
    cases h with
    | type h => exact .inl ⟨h, rfl⟩
    | unbound ht h =>
      refine .inr ⟨_, ht, ?_⟩
      rw [find?_planned_eq_none_iff ha |>.mpr h]
      rfl
    | otherType ht ham han hat h =>
      obtain ⟨q, hf, hq⟩ := exists_find?_planned_iff ha |>.mpr ⟨_, ham, han, hat⟩
      refine .inr ⟨_, ht, ?_⟩
      simp only [hf]
      rw [ite_throw_eq_error_iff, hq]
      exact .inl ⟨h, rfl⟩
    | default ht ham han hat hl h =>
      obtain ⟨q, hf, hq⟩ := exists_find?_planned_iff ha |>.mpr ⟨_, ham, han, hat⟩
      refine .inr ⟨_, ht, ?_⟩
      simp only [hf]
      rw [ite_throw_eq_error_iff, bind_eq_error_iff, parameterDefault_eq_error_iff]
      exact .inr ⟨not_not.mpr hq, .inl ⟨_, hl, h, rfl⟩⟩

theorem planParameter_eq_error_iff :
    i.planParameter attributes earlier p = .error f ↔ i.ParameterFault earlier p f := by
  rw [planParameter_eq_error_iff_bindParameter, checkParameterName_eq_error_iff,
    bindParameter_eq_error_iff ha, ← placed_iff]
  constructor
  case mp =>
    rintro ((h | ⟨hn, ⟨b, hb, h⟩, rfl⟩) | ⟨hn, hr, o, ho, rfl⟩ | ⟨hp, h⟩)
    · exact .name h
    · exact .repeated hn hb h
    · have ⟨q, hq, he⟩ := firstOptional?_eq_some_iff.mp ho
      exact he ▸ .order hn hr hq
    · exact .binding hp h
  case mpr =>
    intro
    | .name h           => exact .inl <| .inl h
    | .repeated hn hb h => exact .inl <| .inr ⟨hn, ⟨_, hb, h⟩, rfl⟩
    | .order hn hr h    =>
      exact .inr <| .inl ⟨hn, hr, _, firstOptional?_eq_some_iff.mpr ⟨_, h, rfl⟩, rfl⟩
    | .binding hp h     => exact .inr <| .inr ⟨hp, h⟩

end Attributes

end Parameters

end Interface

end Declarations

section Levels

variable {α β : Type} {fs : List Fault} {i : Interface}

def faultsIn : Except Rejection α → List Fault
  | .error r => r.faults
  | .ok _    => []

theorem faultsIn_ofFaults? {v : α} :
    faultsIn (Rejection.orAccept v (Rejection.ofFaults? fs)) = fs := by
  cases fs <;> rfl

theorem faultsIn_gather {results : List (Except Fault α)} :
    faultsIn (gather results) = faultsOf results :=
  faultsIn_ofFaults?

theorem faultsIn_bind_pure {x : Except Rejection α} {g : α → β} :
    faultsIn (x >>= fun a => pure (g a)) = faultsIn x := by
  cases x <;> rfl

theorem flatMap_among (x : Except Rejection α) :
    (Rejection.among x).flatMap Rejection.faults = faultsIn x := by
  cases x <;> simp [Rejection.among, faultsIn]

theorem flatMap_among_check (r : Role) (name : String) :
    (Rejection.among ((r.check name).mapError .single)).flatMap Rejection.faults =
      faultsOf [r.check name] := by
  cases r.check name <;> rfl

theorem listed_name_iff {r : Role} {name : String} :
    Listed (fun _ => r.Refuses) [] [name] fs ↔ faultsOf [r.check name] = fs :=
  listed_iff (g := fun _ => r.check) fun _ _ _ => Role.check_eq_error_iff

namespace Interface

theorem listed_attributes_iff :
    Listed i.AttributeFault [] i.attributes fs ↔ faultsIn i.planAttributes = fs := by
  rw [planAttributes, faultsIn_bind_pure, faultsIn_gather]
  exact listed_iff fun _ _ _ => attributeType_eq_error_iff

theorem listed_parameters_iff {attributes : List AttributePlan}
    (ha : i.planAttributes = .ok attributes) :
    Listed i.ParameterFault [] i.constructor fs ↔ faultsIn (i.planConstructor attributes) = fs := by
  rw [planConstructor, faultsIn_bind_pure, faultsIn_gather]
  exact listed_iff fun _ _ _ => planParameter_eq_error_iff ha

-- Either the name or an attribute has a fault, or the constructor decides.
theorem faultsIn_plan :
    faultsOf [Role.interface.check i.name] ++ faultsIn i.planAttributes ≠ [] ∧
      faultsIn i.plan = faultsOf [Role.interface.check i.name] ++ faultsIn i.planAttributes ∨
    faultsOf [Role.interface.check i.name] = [] ∧ ∃ attributes, i.planAttributes = .ok attributes ∧
      faultsIn i.plan = faultsIn (i.planConstructor attributes) := by
  rw [plan_eq]
  cases hn : Role.interface.check i.name <;> cases ha : i.planAttributes
  case ok.ok attributes => exact .inr ⟨rfl, attributes, rfl, faultsIn_bind_pure⟩
  all_goals exact .inl ⟨by simp [faultsOf, faultsIn, Rejection.faults], rfl⟩

theorem faults_iff : i.Faults fs ↔ faultsIn i.plan = fs := by
  constructor
  case mp =>
    intro h
    cases h
    case early ns fs hn ha h =>
      rw [listed_name_iff] at hn
      rw [listed_attributes_iff] at ha
      rcases faultsIn_plan (i := i) with ⟨_, hp⟩ | ⟨hn', _, ha', _⟩
      · rw [hp, hn, ha]
      · rw [ha'] at ha
        exact absurd (by rw [← hn, hn', ← ha]; rfl) h
    case late hn ha hp =>
      rw [listed_name_iff] at hn
      rw [listed_attributes_iff] at ha
      rcases faultsIn_plan (i := i) with ⟨h, _⟩ | ⟨_, _, ha', h⟩
      · exact absurd (by rw [hn, ha]; rfl) h
      · rw [h]
        exact listed_parameters_iff ha' |>.mp hp
  case mpr =>
    rintro rfl
    rcases faultsIn_plan (i := i) with ⟨h, hp⟩ | ⟨hn, attributes, ha, hp⟩ <;> rw [hp]
    · exact .early (listed_name_iff.mpr rfl) (listed_attributes_iff.mpr rfl) h
    · refine .late (listed_name_iff.mpr hn) (listed_attributes_iff.mpr ?_)
        (listed_parameters_iff ha |>.mpr rfl)
      rw [ha]
      rfl

end Interface

theorem exists_last {l : List α} {P : α → Prop} (h : ∃ b ∈ l, P b) :
    ∃ before b after, l = before ++ b :: after ∧ P b ∧ ∀ c ∈ after, ¬P c := by
  induction l
  case nil => simp at h
  case cons a l hi =>
    by_cases hl : ∃ b ∈ l, P b
    case pos =>
      have ⟨before, b, after, he, hb⟩ := hi hl
      exact ⟨a :: before, b, after, by rw [he, List.cons_append], hb⟩
    case neg =>
      have ha : P a := by simpa [hl] using h
      exact ⟨[], a, l, rfl, ha, by simpa using hl⟩

theorem lastDeclaration_append {name : String} (before : List Interface) {after : List Interface}
    {b : Interface} (hb : b.name = name) (ha : ∀ c ∈ after, c.name ≠ name) :
    Interface.lastDeclaration name (before ++ b :: after) = before.length + 1 := by
  have hn : (after.zipIdx (before.length + 1)).filter (·.1.name == name) = [] := by
    rw [List.filter_eq_nil_iff]
    intro c hc
    simpa using ha c.1 (List.fst_mem_of_mem_zipIdx hc)
  simp [Interface.lastDeclaration, List.zipIdx_append, List.zipIdx_cons, hb, hn]

variable {earlier l : List Interface}

theorem faultsIn_planNext_of_mem {before after : List Interface} {b : Interface}
    (hb : b.name = i.name) (ha : ∀ c ∈ after, c.name ≠ i.name) :
    faultsIn (Interface.planNext (before ++ b :: after) i) =
      [.repeatedInterface i.name (before.length + 1) ((before ++ b :: after).length + 1)] := by
  have hm : ∃ c ∈ before ++ b :: after, c.name = i.name := ⟨b, by simp, hb⟩
  rw [Interface.planNext, if_pos (Interface.any_name_iff.mpr hm),
    lastDeclaration_append before hb ha]
  rfl

theorem planNext_of_forall_ne (hn : ∀ b ∈ earlier, b.name ≠ i.name) :
    Interface.planNext earlier i = i.plan := by
  refine if_neg (mt Interface.any_name_iff.mp ?_)
  rintro ⟨b, hm, hb⟩
  exact hn b hm hb

-- The faults of one more interface are those that planning finds in it, whether it is a new one or
-- not.
theorem unitFaults_cons_iff : UnitFaults earlier (i :: l) fs ↔
    ∃ gs, UnitFaults (earlier ++ [i]) l gs ∧
      faultsIn (Interface.planNext earlier i) ++ gs = fs := by
  constructor
  case mp =>
    intro h
    cases h with
    | repeated hb ha r =>
      exact ⟨_, r, by rw [faultsIn_planNext_of_mem hb ha, List.singleton_append]⟩
    | own hn h r       =>
      exact ⟨_, r, by rw [planNext_of_forall_ne hn, Interface.faults_iff.mp h]⟩
  case mpr =>
    rintro ⟨gs, r, rfl⟩
    by_cases he : ∃ b ∈ earlier, b.name = i.name
    case pos =>
      obtain ⟨before, b, after, rfl, hb, ha⟩ := exists_last he
      rw [faultsIn_planNext_of_mem hb ha]
      exact .repeated hb ha r
    case neg =>
      have hn : ∀ b ∈ earlier, b.name ≠ i.name := by simpa using he
      rw [planNext_of_forall_ne hn]
      exact .own hn (Interface.faults_iff.mpr rfl) r

theorem unitFaults_iff :
    UnitFaults earlier l fs ↔ (withEarlier Interface.planNext earlier l).flatMap faultsIn = fs := by
  induction l generalizing earlier fs
  case nil =>
    constructor
    case mp  =>
      intro h
      cases h
      rfl
    case mpr => exact fun h => h ▸ .nil
  case cons i l hi =>
    simp only [unitFaults_cons_iff, hi, exists_eq_left', withEarlier, List.flatMap_cons]

variable {options : Options} {interfaces : List Interface}

theorem faultsIn_planAll :
    faultsIn (planAll interfaces) =
      (withEarlier Interface.planNext [] interfaces).flatMap faultsIn := by
  rw [planAll, Rejection.ofList?, faultsIn_ofFaults?, List.flatMap_assoc]
  exact congrArg (List.flatMap · _) (funext flatMap_among)

theorem faultsIn_compile :
    faultsIn (compile options interfaces) =
      faultsOf [Role.module.check options.moduleName] ++ faultsIn (planAll interfaces) := by
  rw [compile, Rejection.ofList?, faultsIn_ofFaults?, List.flatMap_append,
    flatMap_among_check, flatMap_among]

theorem compileFaults_iff :
    CompileFaults options interfaces fs ↔ faultsIn (compile options interfaces) = fs := by
  rw [faultsIn_compile, faultsIn_planAll]
  constructor
  case mp  =>
    rintro ⟨hn, h⟩
    rw [listed_name_iff.mp hn, unitFaults_iff.mp h]
  case mpr => exact fun h => h ▸ .mk (listed_name_iff.mpr rfl) (unitFaults_iff.mpr rfl)

theorem Rejection.errors_report (r : Rejection) : r.report.errors = r.faults.map .single := by
  unfold report
  split
  case isTrue h  => simp [Report.errors, faults, List.isEmpty_iff.mp h]
  case isFalse h => rfl

theorem Rejection.report_multiple_iff (r : Rejection) :
    (∃ reports, r.report = .multiple reports) ↔ 2 ≤ r.faults.length := by
  obtain ⟨first, rest⟩ := r
  cases rest <;> simp [report, faults]

-- The reports of rejections are flat, so that one layer is all that there is to flatten where they
-- are joined.
theorem Report.ofList?_map_report (rs : List Rejection) :
    ofList? (rs.map Rejection.report) = (Rejection.ofList? rs).map Rejection.report := by
  have he : (rs.map Rejection.report).flatMap errors = (rs.flatMap Rejection.faults).map .single := by
    rw [List.flatMap_map, List.map_flatMap]
    exact congrArg (List.flatMap · rs) (funext Rejection.errors_report)
  rw [ofList?, Rejection.ofList?, he]
  rcases rs.flatMap Rejection.faults with _ | ⟨f, _ | ⟨g, fs⟩⟩
  all_goals rfl

theorem Report.ofList?_of_orAccept {v : α} {rs : List Rejection} {r : Rejection}
    (h : Rejection.orAccept v (Rejection.ofList? rs) = .error r) :
    ofList? (rs.map Rejection.report) = some r.report := by
  rw [ofList?_map_report, orAccept_eq_error_iff.mp h, Option.map_some]

-- A unit that is not accepted is reported with all of its faults and with nothing else, each where
-- its declaration stands, and the report is a flat one. It joins the reports of the parts, of which
-- that of the interfaces joins their reports in turn.
theorem compile_reports_all_faults (options : Options) (interfaces : List Interface) :
    let name := (Role.module.check options.moduleName).mapError Rejection.single
    let plans := withEarlier Interface.planNext [] interfaces
    ((∃ u, compile options interfaces = .ok u) ↔ CompileFaults options interfaces []) ∧
    (∀ r, compile options interfaces = .error r →
      (∀ fs, CompileFaults options interfaces fs ↔ r.report.errors = fs.map .single) ∧
      (∀ e ∈ r.report.errors, ∀ reports, e ≠ .multiple reports) ∧
      ((∃ reports, r.report = .multiple reports) ↔ 2 ≤ r.report.errors.length) ∧
      Report.ofList? ((Rejection.among name ++ Rejection.among (planAll interfaces)).map
        Rejection.report) = some r.report) ∧
    ∀ r, planAll interfaces = .error r →
      Report.ofList? ((plans.flatMap Rejection.among).map Rejection.report) = some r.report := by
  simp only [compileFaults_iff]
  refine ⟨?_, fun r hr => ?_, fun r hr => Report.ofList?_of_orAccept hr⟩
  · cases compile options interfaces <;> simp [faultsIn, Rejection.faults]
  · have hj := Report.ofList?_of_orAccept hr
    rw [hr, Rejection.errors_report, Rejection.report_multiple_iff, List.length_map]
    refine ⟨fun fs => ?_, ?_, Iff.rfl, hj⟩
    · exact (List.map_injective_iff.mpr fun _ _ => Report.single.inj).eq_iff.symm
    · simp

def gauge : Interface where
  name        := "Gauge"
  constructor := [⟨"size", "octet", false, none⟩]
  attributes  := [⟨"level", "any", false⟩, ⟨"unit", "DOMString", true⟩, ⟨"level", "octet", false⟩]

-- The parameter goes unreported because the attributes have faults, and so does whatever the second
-- declaration contains.
theorem compile_reports_all_faults_gauge :
    compile { moduleName := "no-name" } [gauge, gauge] = .error
      ⟨.invalidIdentifier "no-name" .module, [
        .unsupportedType "any" (some (.attribute "Gauge" "level")),
        .repeatedAttribute "Gauge" "level", .repeatedInterface "Gauge" 1 2]⟩ ∧
    CompileFaults { moduleName := "no-name" } [gauge, gauge] [
      .invalidIdentifier "no-name" .module,
      .unsupportedType "any" (some (.attribute "Gauge" "level")),
      .repeatedAttribute "Gauge" "level", .repeatedInterface "Gauge" 1 2] :=
  ⟨rfl, (compile_reports_all_faults _ _).right.left _ rfl |>.left _ |>.mpr rfl⟩

end Levels

end AddonBinding

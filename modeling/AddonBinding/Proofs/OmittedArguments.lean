import AddonBinding.Proofs.HostObject
import AddonBinding.Proofs.RoundTrip

namespace AddonBinding

section Lists

variable {ε α β : Type} {l : List α} {f : α → Bool} {a : α} {k : Nat}

-- Once an item passes, all later items do, so the ones that fail are all at the start.
theorem of_length_takeWhile_le (h : l.Pairwise fun a b => f a → f b)
    (hk : (l.takeWhile (!f ·)).length ≤ k) (ha : l[k]? = some a) : f a := by
  induction l generalizing k
  case nil => simp at ha
  case cons b l hi =>
    have ⟨hb, hl⟩ := List.pairwise_cons.mp h
    cases hf : f b <;> cases k
    case true.zero    => simp_all
    case true.succ    => exact hb a (List.mem_of_getElem? ha) hf
    case false.zero   => simp [hf] at hk
    case false.succ k => exact hi hl (by simpa [hf] using hk) ha

theorem getElem?_of_take_drop {last n : Nat} (h : ((l.take last).drop k)[n]? = some a) :
    l[k + n]? = some a := by
  rw [List.getElem?_drop, List.getElem?_take] at h
  split at h
  case isTrue  => exact h
  case isFalse => contradiction

theorem mapM_congr {f g : α → Except ε β} (h : ∀ a ∈ l, f a = g a) : l.mapM f = l.mapM g := by
  induction l
  case nil => rfl
  case cons a l hi =>
    have ⟨ha, hl⟩ := List.forall_mem_cons.mp h
    rw [List.mapM_cons, List.mapM_cons, ha, hi hl]

end Lists

namespace ConstructorPlan

-- Parameters that need no argument come after all that need one.
def OptionalLast (c : ConstructorPlan) : Prop :=
  c.parameters.Pairwise fun p q => p.default.isSome → q.default.isSome

variable {c : ConstructorPlan} {policy : CoercionPolicy} {args : List HostValue}
variable {defaults : List NativeValue} {p : ParameterPlan} {k last : Nat}

theorem OptionalLast.isSome_default (h : c.OptionalLast) (hk : c.required ≤ k)
    (hp : c.parameters[k]? = some p) : p.default.isSome := by
  have hr : (c.parameters.takeWhile (!·.default.isSome)).length ≤ k := by
    simpa only [required, Option.not_isSome] using hk
  exact of_length_takeWhile_le (f := fun p : ParameterPlan => p.default.isSome) h hr hp

theorem OptionalLast.default_eq (h : c.OptionalLast) (hk : c.required ≤ k) (last : Nat) :
    ((c.parameters.take last).drop k).map (·.default) =
      (((c.parameters.take last).drop k).map (·.initial)).map some := by
  rw [List.map_map]
  refine List.map_congr_left fun p hp => ?_
  have ⟨n, hn⟩ := List.mem_iff_getElem?.mp hp
  have hs := h.isSome_default (hk.trans <| Nat.le_add_right k n) (getElem?_of_take_drop hn)
  have ⟨d, hd⟩ := Option.isSome_iff_exists.mp hs
  simp [ParameterPlan.initial, hd]

-- A default that is passed on comes back as itself, so it is the same whether the argument is
-- there or not.
theorem argument_append_defaults
    (hd : ((c.parameters.take last).drop args.length).map (·.default) = defaults.map some)
    (he : ∀ q ∈ (c.parameters.take last).drop args.length, ∀ d ∈ q.default,
      q.type.decode policy d.encode = .ok d) (hp : c.parameters[k]? = some p) :
    c.argument policy (args ++ defaults.map (·.encode)) k p = c.argument policy args k p := by
  by_cases hk : k < args.length
  case pos => rw [argument, argument, List.getElem?_append_left hk]
  case neg =>
    rw [not_lt] at hk
    rw [argument, argument, List.getElem?_append_right hk, List.getElem?_eq_none hk,
      List.getElem?_map]
    cases hn : defaults[k - args.length]?
    case none   => rfl
    case some d =>
      have hq : ((c.parameters.take last).drop args.length)[k - args.length]?.map (·.default) =
          some (some d) := by
        rw [← List.getElem?_map, hd, List.getElem?_map, hn, Option.map_some]
      have ⟨q, hq, hqd⟩ := Option.map_eq_some_iff.mp hq
      have hqp : q = p := by
        have hq := getElem?_of_take_drop hq
        rw [Nat.add_sub_cancel' hk] at hq
        exact Option.some.inj <| hq.symm.trans hp
      have hm := List.mem_of_getElem? hq
      subst hqp
      simp only [Option.map_some, he q hm d hqd, Except.mapError, ParameterPlan.initial, hqd,
        Option.getD_some]

theorem bind_append_defaults (policy : CoercionPolicy) (hk : c.required ≤ args.length)
    (hl : args.length ≤ last) (ht : last ≤ c.total)
    (hd : ((c.parameters.take last).drop args.length).map (·.default) = defaults.map some)
    (he : ∀ q ∈ (c.parameters.take last).drop args.length, ∀ d ∈ q.default,
      q.type.decode policy d.encode = .ok d) :
    c.bind policy (args ++ defaults.map (·.encode)) = c.bind policy args := by
  have hn : (args ++ defaults.map (·.encode)).length = last := by
    have hd := congrArg List.length hd
    simp only [List.length_map, List.length_drop, List.length_take] at hd
    simp only [total] at ht
    simp only [List.length_append, List.length_map]
    omega
  have h₁ : ¬(last < c.required ∨ c.total < last) := by omega
  have h₂ : ¬(args.length < c.required ∨ c.total < args.length) := by omega
  rw [bind, bind, hn, if_neg h₁, if_neg h₂]
  refine mapM_congr fun x hm => ?_
  simp only [argument_append_defaults hd he (List.mem_zipIdx_iff_getElem?.mp hm)]

end ConstructorPlan

theorem Interface.plan_optionalLast {i : Interface} {plan : InterfacePlan} (h : i.plan = .ok plan) :
    plan.constructor.OptionalLast := by
  have ho := (plan_wellFormed h).constructor.optional
  have hp := (plan_planned h).parameters
  unfold ConstructorPlan.OptionalLast
  generalize plan.constructor.parameters = qs at hp ⊢
  generalize i.constructor = ps at ho hp
  induction hp
  case nil => exact .nil
  case cons p q ps qs h hs hi =>
    have ⟨hp, ho⟩ := List.pairwise_cons.mp ho
    refine .cons (fun r hr => ?_) (hi ho)
    have ⟨s, hs, hr⟩ := exists_of_forall₂_right hs hr
    rw [h.optional, hr.optional]
    exact hp s hs

theorem HostModule.load_optionalLast {interfaces : List Interface} {options : Options}
    {m : HostModule} (h : load interfaces options = .ok m) {plan : InterfacePlan}
    (hp : plan ∈ m.classes) : plan.constructor.OptionalLast := by
  have ⟨_, _, hi⟩ := exists_plan_of_load h hp
  exact Interface.plan_optionalLast hi

-- To leave out arguments is to pass the defaults of their parameters, up to any of them.
theorem construct_append_defaults {interfaces : List Interface} {options : Options} {m : HostModule}
    {name : String} {plan : InterfacePlan} (hm : HostModule.load interfaces options = .ok m)
    (hc : m.class? name = some plan) (args : List HostValue) (last : Nat)
    (hk : plan.constructor.required ≤ args.length) (hl : args.length ≤ last)
    (ht : last ≤ plan.constructor.total)
    (hs : ∀ p ∈ (plan.constructor.parameters.take last).drop args.length, ∀ d ∈ p.default,
      p.type.Safe d) :
    ∃ defaults : List NativeValue,
      ((plan.constructor.parameters.take last).drop args.length).map (·.default) =
        defaults.map some ∧
      m.construct name (args ++ defaults.map (·.encode)) = m.construct name args := by
  have hp := List.mem_of_find?_eq_some hc
  have hd := (HostModule.load_optionalLast hm hp).default_eq hk last
  have hb := ConstructorPlan.bind_append_defaults m.policy hk hl ht hd <| by
    intro p hq d hpd
    have hm' := List.mem_of_mem_take <| List.mem_of_mem_drop hq
    have hi := (HostModule.load_laidOut hm hp).initial p hm'
    have hpd : p.default = some d := hpd
    rw [ParameterPlan.initial, hpd, Option.getD_some] at hi
    exact ScalarType.decode_encode _ hi (hs p hq d hpd)
  refine ⟨_, hd, ?_⟩
  simp only [HostModule.construct, hc, InterfacePlan.construct, hb]

theorem construct_append_defaults_pixel :
    let red : ScalarType := .integer ⟨.w16, false⟩
    let plan : InterfacePlan := {
      name        := "Pixel"
      attributes  := [⟨"red", red, true, 0⟩, ⟨"tag", .text .dom, false, 1⟩]
      constructor := ⟨"Pixel",
        [⟨"tag", .text .dom, none, 1⟩, ⟨"red", red, some (.unsigned 7), 0⟩]⟩ }
    let m : HostModule := ⟨"binding", {}, [plan]⟩
    HostModule.load [pixel] {} = .ok m ∧ ∃ defaults : List NativeValue,
      [some (.unsigned 7)] = defaults.map some ∧
      m.construct "Pixel" ([.text "p"] ++ defaults.map (·.encode)) =
        m.construct "Pixel" [.text "p"] := by
  intro red plan m
  have hm : HostModule.load [pixel] {} = .ok m := rfl
  have hc : m.class? "Pixel" = some plan := rfl
  refine ⟨hm, construct_append_defaults hm hc [.text "p"] 2 (by decide) (by decide) (by decide) ?_⟩
  decide

end AddonBinding

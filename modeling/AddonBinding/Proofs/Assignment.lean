import AddonBinding.Proofs.HostObject
import Mathlib.Data.List.Induction

namespace AddonBinding

namespace Assignment

-- Why an assignment fails. A property that does not exist is not asked whether it can be written,
-- and one that cannot be written is not asked whether the value converts.
inductive Refused (c : Assignment) (plan : InterfacePlan) (policy : CoercionPolicy) :
    RuntimeError → Prop
  | unknown : (∀ a ∈ plan.attributes, a.name ≠ c.property) →
      Refused c plan policy (.unknownProperty plan.name c.property)
  | readonly {a} : a ∈ plan.attributes → a.name = c.property → a.writable = false →
      Refused c plan policy (.readOnly plan.name c.property)
  | mismatch {a r} : a ∈ plan.attributes → a.name = c.property → a.writable = true →
      a.type.decode policy c.value = .error r →
      Refused c plan policy (.typeMismatch (.property plan.name a.name) a.type r)

-- The value that assignments leave to an attribute: that of the last one which stores any, or else
-- the one from before.
inductive Leave (policy : CoercionPolicy) (a : AttributePlan) (start : Option NativeValue) :
    List Assignment → Option NativeValue → Prop
  | start {calls} : (∀ c ∈ calls, ∀ v, ¬c.Stores policy a v) → Leave policy a start calls start
  | last {before c after v} : c.Stores policy a v → (∀ d ∈ after, ∀ w, ¬d.Stores policy a w) →
      Leave policy a start (before ++ c :: after) (some v)

variable {c : Assignment} {plan : InterfacePlan} {policy : CoercionPolicy} {e : RuntimeError}
variable {a : AttributePlan} {start w : Option NativeValue} {calls : List Assignment}

theorem verdict_eq_error_iff (l : plan.LaidOut) :
    c.verdict plan policy = .error e ↔ c.Refused plan policy e := by
  constructor
  case mp =>
    intro h
    unfold verdict at h
    split at h
    case _ ha =>
      cases h
      refine .unknown fun a hm hn => ?_
      rw [l.attribute?_eq_some_iff.mpr ⟨hm, hn⟩] at ha
      contradiction
    case _ a ha =>
      have ⟨hm, hn⟩ := l.attribute?_eq_some_iff.mp ha
      split at h
      case isTrue hw =>
        split at h <;> cases h
        exact .mismatch hm hn hw ‹_›
      case isFalse hw =>
        cases h
        exact .readonly hm hn (Bool.not_eq_true _ ▸ hw)
  case mpr =>
    intro h
    cases h <;> rw [verdict]
    case unknown h =>
      have ha : plan.attribute? c.property = none := by
        rw [InterfacePlan.attribute?, List.find?_eq_none]
        simpa using h
      rw [ha]
    case readonly a ha hn hw => simp [l.attribute?_eq_some_iff.mpr ⟨ha, hn⟩, hw]
    case mismatch a r ha hn hw hd => simp [l.attribute?_eq_some_iff.mpr ⟨ha, hn⟩, hw, hd]

theorem Leave.eq_start (h : Leave policy a start calls w)
    (hc : ∀ c ∈ calls, ∀ v, ¬c.Stores policy a v) : w = start := by
  cases h
  case start => rfl
  case last before c after v hs _ => exact absurd hs <| hc c (by simp) v

theorem Leave.append (h : Leave policy a start calls w) (hc : ∀ v, ¬c.Stores policy a v) :
    Leave policy a start (calls ++ [c]) w := by
  have hc : ∀ d ∈ [c], ∀ v, ¬d.Stores policy a v := List.forall_mem_singleton.mpr hc
  cases h
  case start h => exact .start <| List.forall_mem_append.mpr ⟨h, hc⟩
  case last before d after v hd h =>
    rw [List.append_assoc, List.cons_append]
    exact .last hd <| List.forall_mem_append.mpr ⟨h, hc⟩

end Assignment

namespace HostObject

variable {o : HostObject} {a : AttributePlan} {v : NativeValue} {c : Assignment}
variable {calls : List Assignment}

-- What a call tells its caller.
def outcome (o : HostObject) (c : Assignment) : Except RuntimeError Unit :=
  (o.set c.property c.value).map fun _ => ()

-- The calls of a run with their outcomes.
def outcomes (o : HostObject) : List Assignment → List (Assignment × Except RuntimeError Unit)
  | []         => []
  | c :: calls => (c, o.outcome c) :: (o.attempt c).outcomes calls

theorem outcome_eq (o : HostObject) (c : Assignment) :
    o.outcome c = (c.verdict o.plan o.policy).map fun _ => () := by
  rw [outcome, set_eq_verdict]
  cases c.verdict o.plan o.policy <;> rfl

theorem outcomes_eq_map (o : HostObject) (calls : List Assignment) :
    o.outcomes calls = calls.map fun c => (c, o.outcome c) := by
  induction calls generalizing o
  case nil => rfl
  case cons c _ hi => simp [outcomes, hi, outcome_eq, attempt_plan, attempt_policy]

theorem run_append (o : HostObject) (calls : List Assignment) (c : Assignment) :
    o.run (calls ++ [c]) = (o.run calls).attempt c := by
  simp [run]

theorem attempt_stored (h : o.Valid) (ha : a ∈ o.plan.attributes) (hs : c.Stores o.policy a v) :
    (o.attempt c).storage[a.slot]? = some v := by
  rw [attempt_eq, Assignment.verdict_eq_ok_iff h.laidOut |>.mpr ⟨ha, hs⟩]
  exact List.getElem?_set_self (h.typed.slots a ha)

theorem attempt_kept (h : o.Valid) (ha : a ∈ o.plan.attributes)
    (hs : ∀ v, ¬c.Stores o.policy a v) : (o.attempt c).storage[a.slot]? = o.storage[a.slot]? := by
  rcases attempt_cases h.laidOut c with ⟨b, hb, v, hb', he⟩ | ⟨_, he⟩ <;> rw [he]
  have hn : b.slot ≠ a.slot := fun hn => hs v (h.laidOut.slot_inj hb ha hn ▸ hb')
  exact List.getElem?_set_ne hn

theorem run_append_stored (h : o.Valid) (ha : a ∈ o.plan.attributes) (hs : c.Stores o.policy a v) :
    (o.run (calls ++ [c])).storage[a.slot]? = some v := by
  rw [← o.run_plan calls] at ha
  rw [← o.run_policy calls] at hs
  exact run_append .. ▸ attempt_stored (h.run calls) ha hs

theorem run_append_kept (h : o.Valid) (ha : a ∈ o.plan.attributes)
    (hs : ∀ v, ¬c.Stores o.policy a v) :
    (o.run (calls ++ [c])).storage[a.slot]? = (o.run calls).storage[a.slot]? := by
  rw [← o.run_plan calls] at ha
  rw [← o.run_policy calls] at hs
  exact run_append .. ▸ attempt_kept (h.run calls) ha hs

-- The induction is on the last call: either it stores a value, or what was left before it is left
-- still.
theorem run_leave (h : o.Valid) (ha : a ∈ o.plan.attributes) (calls : List Assignment) :
    Assignment.Leave o.policy a o.storage[a.slot]? calls (o.run calls).storage[a.slot]? := by
  induction calls using List.reverseRecOn
  case nil => exact .start <| List.forall_mem_nil _
  case append_singleton calls c hi =>
    by_cases hs : ∃ v, c.Stores o.policy a v
    case pos =>
      have ⟨v, hs⟩ := hs
      rw [run_append_stored h ha hs]
      exact .last hs <| List.forall_mem_nil _
    case neg =>
      rw [not_exists] at hs
      rw [run_append_kept h ha hs]
      exact hi.append hs

-- An attribute sees the calls on its own property only.
theorem run_filter (h : o.Valid) (ha : a ∈ o.plan.attributes) (calls : List Assignment) :
    (o.run (calls.filter (·.property == a.name))).storage[a.slot]? =
      (o.run calls).storage[a.slot]? := by
  induction calls using List.reverseRecOn
  case nil => rfl
  case append_singleton calls c hi =>
    rw [List.filter_append]
    by_cases hs : ∃ v, c.Stores o.policy a v
    case pos =>
      have ⟨v, hs⟩ := hs
      have hf : [c].filter (·.property == a.name) = [c] := by simp [hs.property]
      rw [hf, run_append_stored h ha hs, run_append_stored h ha hs]
    case neg =>
      rw [not_exists] at hs
      rw [run_append_kept h ha hs, ← hi]
      by_cases hn : c.property = a.name
      case pos =>
        have hf : [c].filter (·.property == a.name) = [c] := by simp [hn]
        rw [hf, run_append_kept h ha hs]
      case neg => simp [hn]

theorem outcome_run_eq_error_iff (h : o.Valid) {e : RuntimeError} :
    (o.run calls).outcome c = .error e ↔ c.Refused o.plan o.policy e := by
  rw [← Assignment.verdict_eq_error_iff h.laidOut, outcome_eq, run_plan, run_policy]
  cases c.verdict o.plan o.policy <;> simp [Except.map]

theorem attempt_of_outcome_error {e : RuntimeError} (h : o.outcome c = .error e) :
    o.attempt c = o := by
  rw [outcome_eq] at h
  rw [attempt_eq]
  cases hv : c.verdict o.plan o.policy
  case error => rfl
  case ok    => simp [hv, Except.map] at h

-- Calls on different properties can change places: every attribute sees the same calls as before.
theorem run_storage_congr (h : o.Valid) {xs ys : List Assignment}
    (hf : ∀ p, xs.filter (·.property == p) = ys.filter (·.property == p)) :
    (o.run xs).storage = (o.run ys).storage := by
  refine h.laidOut.storage_ext ?_ ?_ fun a ha => ?_
  · exact o.run_plan xs ▸ (h.run xs).typed.size
  · exact o.run_plan ys ▸ (h.run ys).typed.size
  · rw [← run_filter h ha xs, hf, run_filter h ha ys]

theorem outcomes_filter (o : HostObject) (calls : List Assignment) (p : String) :
    (o.outcomes calls).filter (·.1.property == p) =
      o.outcomes (calls.filter (·.property == p)) := by
  rw [outcomes_eq_map, outcomes_eq_map, List.filter_map]
  rfl

theorem Valid.get_eq_ok_iff (h : o.Valid) {property : String} {x : HostValue} :
    o.get property = .ok x ↔ ∃ a ∈ o.plan.attributes, a.name = property ∧
      ∃ v, o.storage[a.slot]? = some v ∧ v.encode = x := by
  rw [get, bind_eq_ok_iff]
  simp only [lookup_eq_ok_iff, h.laidOut.attribute?_eq_some_iff, pure_eq_ok_iff, and_assoc]
  refine exists_congr fun a => and_congr_right fun ha => ?_
  simp [h.getElem?_slot ha]

theorem Valid.entries_eq (h : o.Valid) :
    List.Forall₂ (fun a entry => ∃ v, o.storage[a.slot]? = some v ∧ entry = (a.name, v.encode))
      o.plan.attributes o.entries := by
  rw [entries, List.forall₂_map_right_iff, List.forall₂_same]
  exact fun a ha => ⟨_, h.getElem?_slot ha, rfl⟩

-- What assignments, in any number and order, do to an object and tell their callers.
structure LawfulRuns (o : HostObject) : Prop where
  final     : ∀ calls, ∀ a ∈ o.plan.attributes,
    Assignment.Leave o.policy a o.storage[a.slot]? calls (o.run calls).storage[a.slot]?
  readonly  : ∀ calls, ∀ a ∈ o.plan.attributes, a.writable = false →
    (o.run calls).storage[a.slot]? = o.storage[a.slot]?
  refused   : ∀ calls c e, (o.run calls).outcome c = .error e ↔ c.Refused o.plan o.policy e
  failed    : ∀ calls c e, (o.run calls).outcome c = .error e → o.run (calls ++ [c]) = o.run calls
  others    : ∀ calls c, ∀ a ∈ o.plan.attributes, c.property ≠ a.name →
    (o.run (calls ++ [c])).storage[a.slot]? = (o.run calls).storage[a.slot]?
  reordered : ∀ xs ys, (∀ p, xs.filter (·.property == p) = ys.filter (·.property == p)) →
    (o.run xs).storage = (o.run ys).storage ∧
      ∀ p, (o.outcomes xs).filter (·.1.property == p) = (o.outcomes ys).filter (·.1.property == p)
  get       : ∀ calls property x, (o.run calls).get property = .ok x ↔
    ∃ a ∈ o.plan.attributes, a.name = property ∧
      ∃ v, (o.run calls).storage[a.slot]? = some v ∧ v.encode = x
  entries   : ∀ calls, List.Forall₂ (fun a entry =>
    ∃ v, (o.run calls).storage[a.slot]? = some v ∧ entry = (a.name, v.encode))
      o.plan.attributes (o.run calls).entries

end HostObject

theorem runs_lawful_of_load {interfaces : List Interface} {options : Options} {m : HostModule}
    {name : String} {args : List HostValue} {o : HostObject}
    (hm : HostModule.load interfaces options = .ok m) (ho : m.construct name args = .ok o) :
    m.class? name = some o.plan ∧ o.policy = m.policy ∧ o.LawfulRuns := by
  have h := HostModule.construct_valid hm ho
  refine ⟨(HostModule.construct_eq_ok_iff.mp ho).left, HostModule.construct_policy ho, ?_⟩
  constructor
  case final   => exact fun calls a ha => HostObject.run_leave h ha calls
  case refused => exact fun calls c e => HostObject.outcome_run_eq_error_iff h
  case entries => exact fun calls => o.run_plan calls ▸ (h.run calls).entries_eq
  case get     => exact fun calls property x => o.run_plan calls ▸ (h.run calls).get_eq_ok_iff
  case failed =>
    intro calls c e he
    rw [HostObject.run_append, HostObject.attempt_of_outcome_error he]
  case others =>
    intro calls c a ha hn
    exact HostObject.run_append_kept h ha fun v hs => hn hs.property
  case readonly =>
    intro calls a ha hw
    refine (HostObject.run_leave h ha calls).eq_start fun c _ v hs => ?_
    exact absurd hs.writable (by simp [hw])
  case reordered =>
    intro xs ys hf
    refine ⟨HostObject.run_storage_congr h hf, fun p => ?_⟩
    rw [HostObject.outcomes_filter, HostObject.outcomes_filter, hf]

theorem runs_lawful_of_load_pixel :
    ∃ m o, HostModule.load [pixel] {} = .ok m ∧ m.construct "Pixel" [.text "p"] = .ok o ∧
      o.LawfulRuns := by
  have ⟨m, o, hm, ho⟩ := exists_pixel
  exact ⟨m, o, hm, ho, runs_lawful_of_load hm ho |>.right.right⟩

end AddonBinding

import AddonBinding.Plan.Resolve
import Mathlib.Data.List.Forall2

namespace AddonBinding

section Except

variable {ε α β : Type} {x : Except ε α} {e : ε} {b : β}

theorem bind_eq_ok_iff {f : α → Except ε β} : x >>= f = .ok b ↔ ∃ a, x = .ok a ∧ f a = .ok b := by
  cases x <;> simp [bind, Except.bind]

theorem check_bind_eq_ok_iff {c : Except ε Unit} {f : Unit → Except ε β} :
    c >>= f = .ok b ↔ c = .ok () ∧ f () = .ok b := by
  cases c <;> simp [bind, Except.bind]

theorem throw_bind {f : α → Except ε β} : (throw e : Except ε α) >>= f = throw e :=
  rfl

theorem pure_eq_ok_iff {a : β} : (pure b : Except ε β) = .ok a ↔ b = a := by
  simp [pure, Except.pure]

theorem ite_error_eq_ok_iff {c : Prop} [Decidable c] {y : Except ε β} :
    (if c then .error e else y) = .ok b ↔ ¬c ∧ y = .ok b := by
  split <;> simp_all

theorem ite_throw_eq_ok_iff {c : Prop} [Decidable c] {y : Except ε β} :
    (if c then throw e else y) = .ok b ↔ ¬c ∧ y = .ok b :=
  ite_error_eq_ok_iff

theorem bind_eq_error_iff {f : α → Except ε β} :
    x >>= f = .error e ↔ x = .error e ∨ ∃ a, x = .ok a ∧ f a = .error e := by
  cases x <;> simp [bind, Except.bind]

theorem check_bind_eq_error_iff {c : Except ε Unit} {f : Unit → Except ε β} :
    c >>= f = .error e ↔ c = .error e ∨ c = .ok () ∧ f () = .error e := by
  cases c <;> simp [bind, Except.bind]

theorem ite_error_eq_error_iff {c : Prop} [Decidable c] {e' : ε} {y : Except ε β} :
    (if c then .error e' else y) = .error e ↔ c ∧ e' = e ∨ ¬c ∧ y = .error e := by
  split <;> simp_all

theorem ite_throw_eq_error_iff {c : Prop} [Decidable c] {e' : ε} {y : Except ε β} :
    (if c then throw e' else y) = .error e ↔ c ∧ e' = e ∨ ¬c ∧ y = .error e :=
  ite_error_eq_error_iff

theorem pure_ne_error : (pure b : Except ε β) ≠ .error e := by
  simp [pure, Except.pure]

theorem mapError_eq_ok_iff {ε' : Type} {f : ε → ε'} {a : α} : x.mapError f = .ok a ↔ x = .ok a := by
  cases x <;> simp [Except.mapError]

end Except

section Gather

variable {ε α : Type} {values : List α}

theorem eq_map_ok_iff {results : List (Except ε α)} :
    results = values.map .ok ↔
      (∀ r ∈ results, r.isOk) ∧ results.filterMap Except.toOption = values := by
  induction results generalizing values
  case nil => cases values <;> simp
  case cons r results hi =>
    cases r
    case error => cases values <;> simp [Except.isOk, Except.toBool]
    case ok v =>
      cases values
      case nil => simp [Except.toOption]
      case cons w values => simp [Except.toOption, Except.isOk, Except.toBool, hi, and_left_comm]

theorem orAccept_eq_ok_iff {r? : Option Rejection} {v w : α} :
    Rejection.orAccept v r? = .ok w ↔ r? = none ∧ v = w := by
  cases r? <;> simp [Rejection.orAccept]

theorem orAccept_eq_error_iff {r? : Option Rejection} {v : α} {r : Rejection} :
    Rejection.orAccept v r? = .error r ↔ r? = some r := by
  cases r? <;> simp [Rejection.orAccept]

theorem ofFaults?_eq_none_iff {faults : List Fault} :
    Rejection.ofFaults? faults = none ↔ faults = [] := by
  cases faults <;> simp [Rejection.ofFaults?]

-- A rejection has at least one fault, so none is lost where several are joined.
theorem ofList?_eq_none_iff {rejections : List Rejection} :
    Rejection.ofList? rejections = none ↔ rejections = [] := by
  rw [Rejection.ofList?, ofFaults?_eq_none_iff]
  cases rejections <;> simp [Rejection.faults]

theorem faultsOf_eq_nil_iff {results : List (Except Fault α)} :
    faultsOf results = [] ↔ ∀ r ∈ results, r.isOk := by
  rw [faultsOf, List.filterMap_eq_nil_iff]
  refine forall₂_congr fun r _ => ?_
  cases r <;> simp [Except.isOk, Except.toBool]

theorem ofList?_singleton (r : Rejection) : Rejection.ofList? [r] = some r := by
  simp [Rejection.ofList?, Rejection.faults, Rejection.ofFaults?]

theorem ofList?_pair (f : Fault) (r : Rejection) :
    Rejection.ofList? [.single f, r] = some ⟨f, r.faults⟩ := by
  simp [Rejection.ofList?, Rejection.faults, Rejection.single, Rejection.ofFaults?]

theorem flatMap_among_eq_nil_iff {results : List (Except Rejection α)} :
    results.flatMap Rejection.among = [] ↔ ∀ r ∈ results, r.isOk := by
  rw [List.flatMap_eq_nil_iff]
  refine forall₂_congr fun r _ => ?_
  cases r <;> simp [Except.isOk, Except.toBool, Rejection.among]

theorem valuesOf_eq (results : List (Except Fault α)) :
    valuesOf results = results.filterMap Except.toOption := by
  refine congrArg (List.filterMap · results) (funext fun r => ?_)
  cases r <;> rfl

theorem gather_eq_ok_iff {results : List (Except Fault α)} :
    gather results = .ok values ↔ results = values.map .ok := by
  rw [gather, orAccept_eq_ok_iff, ofFaults?_eq_none_iff, faultsOf_eq_nil_iff, valuesOf_eq, eq_map_ok_iff]

end Gather

section WithEarlier

variable {ε α β : Type} {f : List α → α → Except ε β} {earlier l : List α} {values : List β}
variable {P : α → α → Prop} {R : α → β → Prop} {G : List α → Prop}

-- If every item is accepted for what it is (`R`) and for how each earlier item stands to it (`P`), a
-- list is accepted iff all of its items are and all of its pairs are in order. `G` is what is known
-- of the items before an item once they have all been accepted.
theorem withEarlier_eq_map_ok_iff
    (hg : ∀ pre a v, G pre → f pre a = .ok v → G (pre ++ [a]))
    (hf : ∀ pre a v, G pre → (f pre a = .ok v ↔ (∀ b ∈ pre, P b a) ∧ R a v)) (he : G earlier) :
    withEarlier f earlier l = values.map .ok ↔
      (∀ a ∈ l, ∀ b ∈ earlier, P b a) ∧ l.Pairwise P ∧ List.Forall₂ R l values := by
  induction l generalizing earlier values
  case nil => cases values <;> simp [withEarlier]
  case cons a l hi =>
    cases values
    case nil => simp [withEarlier]
    case cons v values =>
      simp only [withEarlier, List.map_cons, List.cons.injEq, List.forall₂_cons, List.pairwise_cons,
        List.forall_mem_cons]
      constructor
      case mp =>
        intro ⟨ha, hl⟩
        have ⟨hp, hr⟩ := hf earlier a v he |>.mp ha
        have ⟨h₁, h₂, h₃⟩ := hi (hg earlier a v he ha) |>.mp hl
        simp only [List.mem_append, List.mem_singleton, or_imp, forall_and, forall_eq] at h₁
        exact ⟨⟨hp, h₁.left⟩, ⟨h₁.right, h₂⟩, hr, h₃⟩
      case mpr =>
        intro ⟨⟨hp, h₁⟩, ⟨h₁', h₂⟩, hr, h₃⟩
        have ha := hf earlier a v he |>.mpr ⟨hp, hr⟩
        refine ⟨ha, hi (hg earlier a v he ha) |>.mpr ⟨?_, h₂, h₃⟩⟩
        simp only [List.mem_append, List.mem_singleton, or_imp, forall_and, forall_eq]
        exact ⟨h₁, h₁'⟩

theorem withEarlier_nil_eq_map_ok_iff
    (hg : ∀ pre a v, G pre → f pre a = .ok v → G (pre ++ [a]))
    (hf : ∀ pre a v, G pre → (f pre a = .ok v ↔ (∀ b ∈ pre, P b a) ∧ R a v)) (he : G [])
    (l : List α) (values : List β) :
    withEarlier f [] l = values.map .ok ↔ l.Pairwise P ∧ List.Forall₂ R l values := by
  simp [withEarlier_eq_map_ok_iff hg hf he]

theorem exists_forall₂ (h : ∀ a ∈ l, ∃ b, R a b) : ∃ values, List.Forall₂ R l values := by
  induction l
  case nil => exact ⟨[], .nil⟩
  case cons a l hi =>
    have ⟨⟨b, hb⟩, h⟩ := List.forall_mem_cons.mp h
    have ⟨values, hv⟩ := hi h
    exact ⟨b :: values, .cons hb hv⟩

theorem mapM_eq_ok_iff {ε : Type} {f : α → Except ε β} :
    l.mapM f = .ok values ↔ List.Forall₂ (fun a b => f a = .ok b) l values := by
  induction l generalizing values
  case nil => rw [List.mapM_nil, pure_eq_ok_iff, List.forall₂_nil_left_iff, eq_comm]
  case cons a l hi =>
    simp only [List.mapM_cons, bind_eq_ok_iff, pure_eq_ok_iff, List.forall₂_cons_left_iff, hi]
    grind

theorem mapM_eq_some_iff {f : α → Option β} :
    l.mapM f = some values ↔ List.Forall₂ (fun a b => f a = some b) l values := by
  induction l generalizing values
  case nil => simp [eq_comm]
  case cons a l hi =>
    simp only [List.mapM_cons, Option.bind_eq_bind, Option.bind_eq_some_iff, Option.pure_def,
      Option.some.injEq, List.forall₂_cons_left_iff, hi]
    grind

-- Reading what was written gives the list back where it does so for each of its elements.
theorem mapM_map_eq_some_self_iff {f : β → Option α} {g : α → β} :
    (l.map g).mapM f = some l ↔ ∀ a ∈ l, f (g a) = some a := by
  rw [mapM_eq_some_iff, List.forall₂_map_left_iff, List.forall₂_same]

theorem exists_of_forall₂_left {a : α} (h : List.Forall₂ R l values) (ha : a ∈ l) :
    ∃ b ∈ values, R a b := by
  induction h
  case nil => contradiction
  case cons b _ values h _ hi =>
    cases ha
    case head    => exact ⟨b, List.mem_cons_self, h⟩
    case tail ha =>
      have ⟨b, hb, h⟩ := hi ha
      exact ⟨b, List.mem_cons_of_mem _ hb, h⟩

theorem exists_of_forall₂_right {b : β} (h : List.Forall₂ R l values) (hb : b ∈ values) :
    ∃ a ∈ l, R a b :=
  exists_of_forall₂_left (R := fun b a => R a b) h.flip hb

theorem getElem?_of_forall₂ {a : α} {k : Nat} (h : List.Forall₂ R l values) (ha : l[k]? = some a) :
    ∃ b, values[k]? = some b ∧ R a b := by
  induction h generalizing k
  case nil => simp at ha
  case cons b _ _ h _ hi =>
    cases k
    case zero   => exact ⟨b, rfl, Option.some.inj ha ▸ h⟩
    case succ k => exact hi ha

theorem flatMap_of_forall₂ {γ : Type} {f : α → List γ} {g : β → List γ}
    (h : List.Forall₂ R l values) (hf : ∀ a b, R a b → g b = f a) :
    values.flatMap g = l.flatMap f := by
  induction h
  case nil         => rfl
  case cons h _ hi => rw [List.flatMap_cons, List.flatMap_cons, hf _ _ h, hi]

theorem forall₂_zipIdx (h : List.Forall₂ R l values) (n : Nat) :
    List.Forall₂ (fun a b => R a.1 b.1 ∧ a.2 = b.2) (l.zipIdx n) (values.zipIdx n) := by
  induction h generalizing n
  case nil => exact .nil
  case cons h _ hi => exact .cons ⟨h, rfl⟩ (hi (n + 1))

end WithEarlier

end AddonBinding

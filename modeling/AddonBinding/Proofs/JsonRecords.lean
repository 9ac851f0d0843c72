import AddonBinding.Interface.Json
import AddonBinding.Proofs.JsonReader
import AddonBinding.Proofs.Results

namespace AddonBinding.Json

variable {members : List (String × Option Json)} {key : String} {value? : Option Json}

-- The members of a record that are there.
def present (members : List (String × Option Json)) : List (String × Json) :=
  members.filterMap fun m => m.2.map (m.1, ·)

theorem record_eq (members : List (String × Option Json)) :
    record members = .object ((present members).map fun m => (some m.1, m.2)) := by
  rw [record, present, List.map_filterMap]
  simp [Function.comp_def]

theorem mem_present {value : Json} :
    (key, value) ∈ present members ↔ (key, some value) ∈ members := by
  simp only [present, List.mem_filterMap, Option.map_eq_some_iff, Prod.mk.injEq]
  constructor
  case mp =>
    rintro ⟨⟨k, v?⟩, hm, v, rfl, rfl, rfl⟩
    exact hm
  case mpr => exact fun hm => ⟨_, hm, value, rfl, rfl, rfl⟩

theorem present_cons (m : String × Option Json) (members : List (String × Option Json)) :
    present (m :: members) = m.2.toList.map (m.1, ·) ++ present members := by
  have ⟨k, v?⟩ := m
  cases v? <;> rfl

theorem filter_present_of_not_mem (h : key ∉ members.map Prod.fst) :
    (present members).filter (·.1 == key) = [] := by
  refine List.filter_eq_nil_iff.mpr fun m hm hk => h ?_
  exact List.mem_map.mpr ⟨_, mem_present.mp hm, beq_iff_eq.mp hk⟩

-- With no key twice, what stands under a key is what it was given.
theorem filter_present (hn : (members.map Prod.fst).Nodup) (hm : (key, value?) ∈ members) :
    (present members).filter (·.1 == key) = value?.toList.map (key, ·) := by
  induction members
  case nil => contradiction
  case cons m members hi =>
    have ⟨hk, hn⟩ := List.nodup_cons.mp hn
    rw [present_cons, List.filter_append]
    rcases List.mem_cons.mp hm with rfl | hm
    · rw [filter_present_of_not_mem hk, List.append_nil, List.filter_eq_self]
      simp
    · have hne : m.1 ≠ key := fun h => hk <| List.mem_map.mpr ⟨_, hm, h.symm⟩
      rw [hi hn hm, List.append_left_eq_self, List.filter_eq_nil_iff]
      simp [hne]

theorem unique?_present (hn : (members.map Prod.fst).Nodup) (hm : (key, value?) ∈ members) :
    unique? key (present members) = some value? := by
  rw [unique?, filter_present hn hm]
  cases value? <;> rfl

-- A record reads back as the fields that it was written from.
theorem fields?_record {keys : List String} (hk : members.map Prod.fst = keys) (hn : keys.Nodup) :
    fields? keys (record members) = some (members.map Prod.snd) := by
  subst hk
  have hp : ((present members).map fun m => (some m.1, m.2)).mapM
      (fun (m : Option String × Json) => m.1.map (·, m.2)) = some (present members) :=
    mapM_map_eq_some_self_iff.mpr fun _ _ => rfl
  have hu : (members.map Prod.fst).mapM (unique? · (present members)) =
      some (members.map Prod.snd) := by
    rw [mapM_eq_some_iff, List.forall₂_map_left_iff, List.forall₂_map_right_iff, List.forall₂_same]
    exact fun m hm => unique?_present hn hm
  rw [record_eq, fields?]
  exact (congrArg (· >>= _) hp).trans hu

theorem exists_of_listOf? {α : Type} {item? : Json → Option α} {x : α} {xs : List α}
    (h : listOf? item? value? = some xs) (hx : x ∈ xs) : ∃ j, item? j = some x := by
  cases value?
  case none => cases Option.some.inj h; contradiction
  case some j =>
    have ⟨js, _, h⟩ := Option.bind_eq_some_iff.mp h
    have ⟨j, _, hj⟩ := exists_of_forall₂_right (mapM_eq_some_iff.mp h) hx
    exact ⟨j, hj⟩

theorem written_record (h : ∀ m ∈ members, ∀ j ∈ m.2, j.Written) : (record members).Written := by
  rw [record_eq]
  refine .object (List.forall_mem_map.mpr fun _ _ => rfl) <| List.forall_mem_map.mpr fun m hm => ?_
  exact h _ (mem_present.mp hm) _ rfl

theorem written_array {α : Type} {f : α → Json} {xs : List α} (h : ∀ x ∈ xs, (f x).Written) :
    (Json.array (xs.map f)).Written :=
  .array <| List.forall_mem_map.mpr h

theorem written_ofText (s : String) : (ofText s).Written :=
  .text s

theorem written_ofInt (n : Int) : (ofInt n).Written :=
  .number <| List.forall_mem_nil _

theorem written_ofNat (n : Nat) : (ofNat n).Written :=
  .number <| List.forall_mem_nil _

theorem written_ofDouble (x : Double) : (ofDouble x).Written := by
  cases x
  case finite a steps _ => exact .number <| numberFormat.written_numeral a steps
  all_goals exact .null

end AddonBinding.Json

import AddonBinding.FileTree.Basic
import AddonBinding.Proofs.Results

namespace AddonBinding

-- Where a name leads to from a directory, whatever is there.
def Location.follow (l : Location) (name : String) : Location :=
  if name = "." then l else if name = ".." then l.dropLast else l ++ [name]

namespace Path

def start (p : Path) (workDir : Location) : Location :=
  if p.absolute then [] else workDir

-- Where a path leads to if nothing is missing on the way.
def target (p : Path) (workDir : Location) : Location :=
  p.names.foldl Location.follow (p.start workDir)

-- A path visits the directories on its way and the location that it leads to.
def Visits (p : Path) (workDir l : Location) : Prop :=
  ∃ names, names <+: p.names ∧ names.foldl Location.follow (p.start workDir) = l

variable {p q : Path} {workDir l : Location} {names : List String}

section Parents

theorem visits_target : p.Visits workDir (p.target workDir) :=
  ⟨_, List.prefix_rfl, rfl⟩

theorem foldl_follow_filter (l : Location) (names : List String) :
    (names.filter (· != ".")).foldl Location.follow l = names.foldl Location.follow l := by
  induction names generalizing l
  case nil => rfl
  case cons name names hi =>
    rw [List.filter_cons]
    split
    case isTrue    => exact hi _
    case isFalse h =>
      have hn : name = "." := by simpa using h
      rw [hi, List.foldl_cons, Location.follow, if_pos hn]

theorem foldl_follow_here (h : ∀ name ∈ names, name = ".") :
    names.foldl Location.follow l = l := by
  rw [← foldl_follow_filter, List.filter_eq_nil_iff.mpr (by simpa using h), List.foldl_nil]

theorem visits_of_mem_parents (h : q ∈ p.parents) : p.Visits workDir (q.target workDir) := by
  have ⟨n, _, hq⟩ := List.mem_map.mp h
  subst hq
  have ⟨here, hc, hh⟩ : ∃ here, p.components = here ++ p.names.filter (· != ".") ∧
      ∀ name ∈ here, name = "." := by
    refine ⟨_, rfl, fun name hn => ?_⟩
    split at hn
    case isTrue  => cases hn
    case isFalse => simpa using (List.mem_filter.mp hn).right
  have ⟨names, hp, hf⟩ := List.prefix_filter_iff.mp <|
    List.take_prefix (n - here.length) (p.names.filter (· != "."))
  refine ⟨names, hp, ?_⟩
  rw [target, hc, List.take_append, List.foldl_append, hf, foldl_follow_filter,
    foldl_follow_here fun name hn => hh name (List.mem_of_mem_take hn)]
  rfl

theorem length_le_foldl_follow (hn : ".." ∉ names) (l : Location) :
    l.length ≤ (names.foldl Location.follow l).length := by
  induction names generalizing l
  case nil => exact Nat.le_refl _
  case cons name names hi =>
    have ⟨hl, hn⟩ := List.ne_and_not_mem_of_not_mem_cons hn
    refine Nat.le_trans ?_ (hi hn _)
    simp only [Location.follow, if_neg hl.symm]
    split <;> simp

-- Without a name that leads back a path only goes down.
theorem Visits.length_le (hv : p.Visits workDir l) (hn : ".." ∉ p.names) :
    l.length ≤ (p.target workDir).length := by
  obtain ⟨names, ⟨rest, hr⟩, rfl⟩ := hv
  rw [target, ← hr, List.foldl_append]
  exact length_le_foldl_follow (fun hm => hn <| hr ▸ List.mem_append_right _ hm) _

end Parents

section Join

variable {read cs rest : List Char} {dir file : String}

theorem splitFrom_append (read cs rest : List Char) :
    splitFrom read (cs ++ '/' :: rest) = splitFrom read cs ++ splitFrom [] rest := by
  induction cs generalizing read
  case nil => rfl
  case cons c cs hi =>
    simp only [List.cons_append, splitFrom]
    split <;> simp [hi]

theorem splitFrom_of_not_mem (h : '/' ∉ cs) : splitFrom read cs = [read.reverse ++ cs] := by
  induction cs generalizing read
  case nil => simp [splitFrom]
  case cons c cs hi =>
    have ⟨hc, h⟩ := List.ne_and_not_mem_of_not_mem_cons h
    simp [splitFrom, hc.symm, hi h]

theorem splitFrom_ne_nil : splitFrom read cs ≠ [] := by
  induction cs generalizing read
  case nil => simp [splitFrom]
  case cons c cs hi =>
    rw [splitFrom]
    split
    case isTrue  => simp
    case isFalse => exact hi

-- What comes before the name of a file in a path.
theorem exists_splitFrom_join (hd : dir ≠ "") (hf : '/' ∉ file.toList) :
    ∃ parts, parts ≠ [] ∧ splitFrom [] (join dir file).toList = parts ++ [file.toList] ∧
      (splitFrom [] dir.toList = parts ∨ splitFrom [] dir.toList = parts ++ [[]]) := by
  have hl : splitFrom [] file.toList = _ := splitFrom_of_not_mem hf
  rw [join, if_neg (by simpa using hd)]
  split
  case isTrue h =>
    have ⟨cs, hc⟩ := List.getLast?_eq_some_iff.mp h
    refine ⟨splitFrom [] cs, splitFrom_ne_nil, ?_, .inr ?_⟩
    · rw [String.toList_append, hc, List.append_assoc, List.singleton_append, splitFrom_append, hl]
      rfl
    · rw [hc, splitFrom_append]
      rfl
  case isFalse =>
    refine ⟨splitFrom [] dir.toList, splitFrom_ne_nil, ?_, .inl rfl⟩
    have hs : "/".toList = ['/'] := by decide
    rw [String.toList_append, String.toList_append, List.append_assoc, hs, List.singleton_append,
      splitFrom_append, hl]
    rfl

theorem exists_join_eq (dir file : String) : ∃ s, join dir file = dir ++ s := by
  unfold join
  split
  case isTrue h  => exact ⟨file, by simp [String.isEmpty_iff.mp h]⟩
  case isFalse h =>
    split
    case isTrue  => exact ⟨file, rfl⟩
    case isFalse => exact ⟨"/" ++ file, String.append_assoc⟩

-- A text that is no path names nothing, and so does the empty one.
def ofText (s : String) : Path :=
  (ofText? s).getD { names := [] }

-- The path of a file in a directory has one name more.
theorem ofText?_join (hf : '/' ∉ file.toList) (hn : file ≠ "")
    (h : ofText? (join dir file) = some p) :
    p.absolute = (ofText dir).absolute ∧ p.names = (ofText dir).names ++ [file] := by
  simp only [ofText?, Option.ite_none_left_eq_some, not_or, Option.some.injEq] at h
  obtain ⟨⟨_, hz, hs⟩, rfl⟩ := h
  by_cases hd : dir = ""
  · subst hd
    simp [ofText, ofText?, join, splitFrom_of_not_mem hf, hn]
  · have ⟨s, hj⟩ := exists_join_eq dir file
    have hu : ¬(dir.isEmpty ∨ dir.toList.contains '\x00' ∨ lengthLimit ≤ dir.utf8ByteSize) := by
      rw [hj, String.toList_append, List.contains_append, Bool.or_eq_true, not_or] at hz
      rw [hj, String.utf8ByteSize_append] at hs
      simp only [String.isEmpty_iff, not_or]
      exact ⟨hd, hz.left, by omega⟩
    have ⟨parts, hp, hj', hd'⟩ := exists_splitFrom_join hd hf
    rw [ofText, ofText?, if_neg hu, hj']
    rcases hd' with hd' | hd'
    all_goals simp [hd', hn, List.head?_append_of_ne_nil _ hp]

theorem target_join (hf : '/' ∉ file.toList) (hn : file ∉ ["", ".", ".."])
    (h : ofText? (join dir file) = some p) (workDir : Location) :
    p.target workDir = (ofText dir).target workDir ++ [file] := by
  simp only [List.mem_cons, List.not_mem_nil, or_false, not_or] at hn
  have ⟨ha, hp⟩ := ofText?_join hf hn.left h
  rw [target, target, start, ha, hp, List.foldl_append, List.foldl_cons, List.foldl_nil,
    Location.follow, if_neg hn.right.left, if_neg hn.right.right]
  rfl

end Join

end Path

namespace FileTree

variable {t t' t'' : FileTree} {p : Path} {l l' : Location} {names : List String}

section Walk

theorem enter_eq_ok_iff : t.enter l = .ok l' ↔ t.node? l = some .directory ∧ l = l' := by
  unfold enter
  split <;> simp_all

theorem step_eq_ok {name : String} (h : t.step l name = .ok l') :
    t.node? l = some .directory ∧ l' = Location.follow l name := by
  have ⟨_, he, h⟩ := bind_eq_ok_iff.mp h
  have ⟨hd, hl⟩ := enter_eq_ok_iff.mp he
  subst hl
  refine ⟨hd, ?_⟩
  unfold Location.follow
  split at h
  case isTrue hn => rw [if_pos hn, ← pure_eq_ok_iff.mp h]
  case isFalse hn =>
    rw [if_neg hn]
    split at h
    case isTrue hn  => rw [if_pos hn, ← pure_eq_ok_iff.mp h]
    case isFalse hn =>
      have ⟨_, h⟩ := ite_throw_eq_ok_iff.mp h
      rw [if_neg hn, ← pure_eq_ok_iff.mp h]

theorem foldlM_step_eq_ok (h : names.foldlM t.step l = .ok l') :
    l' = names.foldl Location.follow l := by
  induction names generalizing l
  case nil => exact (pure_eq_ok_iff.mp h).symm
  case cons name names hi =>
    rw [List.foldlM_cons] at h
    have ⟨_, hs, h⟩ := bind_eq_ok_iff.mp h
    rw [List.foldl_cons, ← (step_eq_ok hs).right]
    exact hi h

theorem walk_eq_ok (h : t.walk p = .ok l) : l = p.target t.workDir :=
  foldlM_step_eq_ok h

end Walk

section Directories

-- Some of the locations where nothing was are now directories, and nothing else is different.
structure Grown (new : Location → Prop) (t t' : FileTree) : Prop where
  workDir : t'.workDir = t.workDir
  node    : ∀ l, t'.node? l = t.node? l ∨
    new l ∧ t.node? l = none ∧ t'.node? l = some .directory

variable {new : Location → Prop}

theorem Grown.refl : Grown new t t :=
  ⟨rfl, fun _ => .inl rfl⟩

theorem Grown.trans (h : Grown new t t') (h' : Grown new t' t'') : Grown new t t'' where
  workDir := h'.workDir.trans h.workDir
  node l  := by
    rcases h.node l with hn | ⟨hl, hn, hd⟩ <;> rcases h'.node l with hn' | ⟨hl', hn', hd'⟩
    · exact .inl (hn'.trans hn)
    · exact .inr ⟨hl', hn ▸ hn', hd'⟩
    · exact .inr ⟨hl, hn, hn'.trans hd⟩
    · cases hd.symm.trans hn'

theorem not_isPrefixOf_workDir (h : t.node? l ≠ some .directory) :
    l.isPrefixOf t.workDir = false := by
  rw [Bool.eq_false_iff]
  exact fun hp => h (if_pos hp)

theorem Grown.put (hl : new l) (hn : t.node? l = none) : Grown new t (t.put l .directory) where
  workDir := rfl
  node k  := by
    by_cases hk : k = l
    · subst hk
      have hp := not_isPrefixOf_workDir (t := t) (l := k) (by simp [hn])
      exact .inr ⟨hl, hn, node?_put_self t _ hp⟩
    · exact .inl (node?_put_of_ne t _ hk)

theorem asked_grown (t : FileTree) : Grown new t t.asked :=
  ⟨rfl, fun _ => .inl rfl⟩

theorem makeDir_grown (hp : new (p.target t.workDir)) (h : t.makeDir p = .ok t') :
    Grown new t t' := by
  have ⟨l, hw, h⟩ := bind_eq_ok_iff.mp h
  have ⟨hn, h⟩ := ite_throw_eq_ok_iff.mp h
  have ht := pure_eq_ok_iff.mp h
  subst ht
  exact .put (walk_eq_ok hw ▸ hp) (by simpa using hn)

-- Whether it succeeds or not, an operation makes new directories at most.
def Grows (workDir : Location) (new : Location → Prop) {α : Type} (x : StateM FileTree α) : Prop :=
  ∀ t, t.workDir = workDir → Grown new t (x t).2

namespace Grows

variable {workDir : Location} {α β : Type}

theorem pure (a : α) : Grows workDir new (Pure.pure a) :=
  fun _ _ => .refl

theorem bind {x : StateM FileTree α} {f : α → StateM FileTree β} (hx : Grows workDir new x)
    (hf : ∀ a, Grows workDir new (f a)) : Grows workDir new (x >>= f) := by
  intro t ht
  have hg := hx t ht
  exact hg.trans <| hf _ _ <| hg.workDir.trans ht

theorem answer (refusal : α) (look : FileTree → α) : Grows workDir new (answer refusal look) :=
  fun t _ => asked_grown t

theorem tryMakeDir (hp : new (p.target workDir)) : Grows workDir new (tryMakeDir p) := by
  rintro t rfl
  unfold FileTree.tryMakeDir
  split
  case h_1 h =>
    have ⟨_, h⟩ := ite_error_eq_ok_iff.mp h
    exact (asked_grown t).trans <| makeDir_grown (t := t.asked) hp h
  case h_2 => exact asked_grown t

theorem makeDirAgain (hp : new (p.target workDir)) : Grows workDir new (makeDirAgain p) := by
  refine (tryMakeDir hp).bind fun r => ?_
  cases r
  case ok    => exact .pure true
  case error => exact .answer false _

theorem makeDirAfter {parents : StateM FileTree Bool} (hp : new (p.target workDir))
    (hs : Grows workDir new parents) : Grows workDir new (makeDirAfter parents p) := by
  refine (tryMakeDir hp).bind fun r => ?_
  rcases r with _ | _
  case ok    => exact .pure true
  case error e =>
    cases e
    case blocked => exact .answer false _
    case missing =>
      refine hs.bind fun made => ?_
      cases made
      case true  => exact makeDirAgain hp
      case false => exact .pure false

theorem makeDirFrom {parents : List Path} (hp : ∀ q ∈ p :: parents, new (q.target workDir)) :
    Grows workDir new (makeDirFrom p parents) := by
  induction parents generalizing p
  all_goals have ⟨hp, hps⟩ := List.forall_mem_cons.mp hp
  case nil            => exact makeDirAfter hp (.pure true)
  case cons _ _ hi _ => exact makeDirAfter hp (hi hps)

end Grows

theorem makeDirs_grown (path : String) (t : FileTree) :
    Grown ((Path.ofText path).Visits t.workDir) t (makeDirs path t).2 := by
  unfold makeDirs Path.ofText
  cases Path.ofText? path
  case none   => exact .refl
  case some p =>
    refine Grows.makeDirFrom (List.forall_mem_cons.mpr ⟨Path.visits_target, fun q hq => ?_⟩) t rfl
    exact Path.visits_of_mem_parents hq

-- The parent was made for a directory that is refused then, and it stays.
example :
    let r := makeDirs "new/gen" { refusals := [false, false, true] }
    r.1 = false ∧ r.2.node? ["new"] = some .directory ∧ r.2.node? ["new", "gen"] = none := by
  decide +kernel

end Directories

section Files

variable {path text : String}

theorem locateText?_eq_some (h : t.locateText? path = some l) :
    ∃ p, Path.ofText? path = some p ∧ t.walk p = .ok l := by
  obtain ⟨p, hp, h⟩ := Option.bind_eq_some_iff.mp h
  cases hl : t.locate p
  case error => simp [hl, Except.toOption] at h
  case ok k  =>
    have hk : k = l := by simpa [hl, Except.toOption] using h
    obtain ⟨_, hw, he⟩ := bind_eq_ok_iff.mp hl
    subst hk
    split at he
    case isTrue  => exact ⟨p, hp, (enter_eq_ok_iff.mp he).right ▸ hw⟩
    case isFalse => exact ⟨p, hp, pure_eq_ok_iff.mp he ▸ hw⟩

theorem writeText?_eq_some (h : t.writeText? path text = some t') :
    ∃ p, Path.ofText? path = some p ∧ t.walk p = .ok (p.target t.workDir) ∧
      t'.workDir = t.workDir ∧ t'.node? (p.target t.workDir) = some (.file text) ∧
      ∀ l ≠ p.target t.workDir, t'.node? l = t.node? l := by
  have ⟨l, hl, h⟩ := Option.bind_eq_some_iff.mp h
  have ⟨p, hp, hw⟩ := locateText?_eq_some hl
  have he := walk_eq_ok hw
  subst he
  have ⟨_, hd, h⟩ := Option.bind_eq_some_iff.mp h
  have hd : t.node? (p.target t.workDir) ≠ some .directory := by
    intro he
    simp [he, guard] at hd
  cases Option.some.inj h
  exact ⟨p, hp, hw, rfl, node?_put_self t _ (not_isPrefixOf_workDir hd),
    fun l hl => node?_put_of_ne t _ hl⟩

-- The directory of a file that a path leads to is there.
theorem node?_of_walk_join {dir file : String} (hf : '/' ∉ file.toList) (hn : file ≠ "")
    (hp : Path.ofText? (Path.join dir file) = some p) (h : t.walk p = .ok l) :
    t.node? ((Path.ofText dir).target t.workDir) = some .directory := by
  have ⟨ha, hp⟩ := Path.ofText?_join hf hn hp
  rw [walk, ha, hp, List.foldlM_append] at h
  have ⟨_, hs, h⟩ := bind_eq_ok_iff.mp h
  rw [List.foldlM_cons] at h
  have ⟨_, h, _⟩ := bind_eq_ok_iff.mp h
  rw [Path.target, Path.start, ← foldlM_step_eq_ok hs]
  exact (step_eq_ok h).left

end Files

section Operations

-- Nothing is different but for the operations that were asked for.
def Untouched (t t' : FileTree) : Prop :=
  ∃ n, t' = { t with refusals := t.refusals.drop n }

theorem Untouched.refl : Untouched t t :=
  ⟨0, rfl⟩

theorem Untouched.asked (t : FileTree) : Untouched t t.asked :=
  ⟨1, by rw [FileTree.asked, List.drop_one]⟩

theorem Untouched.trans (h : Untouched t t') (h' : Untouched t' t'') : Untouched t t'' := by
  obtain ⟨n, rfl⟩ := h
  obtain ⟨k, rfl⟩ := h'
  exact ⟨n + k, by rw [List.drop_drop]⟩

theorem Untouched.workDir (h : Untouched t t') : t'.workDir = t.workDir := by
  obtain ⟨_, rfl⟩ := h
  rfl

theorem Untouched.node? (h : Untouched t t') (l : Location) : t'.node? l = t.node? l := by
  obtain ⟨_, rfl⟩ := h
  rfl

theorem Untouched.grown {new : Location → Prop} (h : Untouched t t') : Grown new t t' :=
  ⟨h.workDir, fun l => .inl (h.node? l)⟩

theorem bind_of_eq {α β : Type} {x : StateM FileTree α} {a : α} (h : x t = (a, t'))
    (next : α → StateM FileTree β) : (x >>= next) t = next a t' := by
  simp only [bind, StateT.bind, h]

theorem pathExists_bind {α : Type} (path : String) (next : Bool → StateM FileTree α)
    (t : FileTree) : (MonadFiles.pathExists path >>= next) t =
      next (if t.refuses then false else t.pathExists path) t.asked :=
  rfl

theorem readText?_bind {α : Type} (path : String) (next : Option String → StateM FileTree α)
    (t : FileTree) : (MonadFiles.readText? path >>= next) t =
      next (if t.refuses then none else t.readText? path) t.asked :=
  rfl

theorem after?_eq_some_iff {operation : StateM FileTree Bool} :
    after? operation t = some t' ↔ (operation t).1 = true ∧ (operation t).2 = t' := by
  simp [after?]

theorem change_of_after?_eq_none {f : FileTree → Option FileTree}
    (h : after? (change f) t = none) : change f t = (false, t.asked) := by
  revert h
  unfold after? change
  cases t.refuses <;> cases f t.asked <;> simp

theorem after?_change_eq_some {f : FileTree → Option FileTree}
    (h : after? (change f) t = some t') : f t.asked = some t' := by
  revert h
  unfold after? change
  cases t.refuses <;> cases f t.asked <;> simp

theorem after?_writeText?_eq_some {path text : String}
    (h : t.after? (change (·.writeText? path text)) = some t') :
    ∃ p, Path.ofText? path = some p ∧ t.walk p = .ok (p.target t.workDir) ∧
      t'.workDir = t.workDir ∧ t'.node? (p.target t.workDir) = some (.file text) ∧
      ∀ l ≠ p.target t.workDir, t'.node? l = t.node? l :=
  writeText?_eq_some (t := t.asked) (after?_change_eq_some h)

theorem pathExists_of_readText? {path text : String} (h : t.readText? path = some text) :
    t.pathExists path := by
  have ⟨l, hl, h⟩ := Option.bind_eq_some_iff.mp h
  have ⟨n, hn, _⟩ := Option.bind_eq_some_iff.mp h
  simp [pathExists, hl, hn]

end Operations

end FileTree

end AddonBinding

import AddonBinding.CommandLine.Run
import AddonBinding.Proofs.ClassMembers
import AddonBinding.Proofs.FileChanges

namespace AddonBinding

-- The text of the file at a location.
def FileTree.text? (t : FileTree) (l : Location) : Option String :=
  match t.node? l with
  | some (.file text) => some text
  | _                 => none

namespace Output

def directory (o : Output) : Path :=
  Path.ofText o.dir

-- Where a file of a module belongs.
def place (o : Output) (moduleName : String) (workDir : Location) (a : Artifact) : Location :=
  o.directory.target workDir ++ [moduleName ++ a.suffix]

def prepare (o : Output) : StateM FileTree Bool :=
  if o.dir.isEmpty then return true else FileTree.makeDirs o.dir

def writeFile (o : Output) (u : CompiledUnit) (a : Artifact) : StateM FileTree Bool :=
  FileTree.change (·.writeText? (o.path u.manifest.moduleName a) (a.text u))

-- The tree after some files are written, if they all can be.
def writeFiles? (o : Output) (u : CompiledUnit) (as : List Artifact) (t : FileTree) :
    Option FileTree :=
  as.foldlM (fun t a => t.after? (o.writeFile u a)) t

def write? (o : Output) (u : CompiledUnit) (t : FileTree) : Option FileTree :=
  t.after? o.prepare >>= o.writeFiles? u o.artifacts

variable {o : Output} {u : CompiledUnit} {t t' t'' : FileTree} {name : String} {workDir : Location}
  {a : Artifact} {as : List Artifact}

theorem place_injective (o : Output) (name : String) (workDir : Location) :
    Function.Injective (o.place name workDir) := by
  intro a b h
  have hs : a.suffix = b.suffix := by simpa [place] using h
  cases a <;> cases b <;> simp [Artifact.suffix] at hs <;> rfl

theorem place_mem_map_iff : o.place name workDir a ∈ as.map (o.place name workDir) ↔ a ∈ as :=
  List.mem_map_of_injective (place_injective ..)

-- A name of a module holds no slash, and with the end of a file's name it is a name of its own.
theorem usable_fileName (hm : Identifier.Usable name) (a : Artifact) :
    '/' ∉ (name ++ a.suffix).toList ∧ name ++ a.suffix ∉ ["", ".", ".."] := by
  constructor
  case left  =>
    have hs : '/' ∉ a.suffix.toList := by cases a <;> decide
    rw [String.toList_append, List.mem_append, not_or]
    exact ⟨hm.wellFormed.not_mem (by decide), hs⟩
  case right =>
    have hl : 3 ≤ a.suffix.length := by cases a <;> decide
    have hd : ∀ s ∈ ["", ".", ".."], s.length < 3 := by decide
    intro h
    have hn := hd _ h
    rw [String.length_append] at hn
    omega

theorem target_path (hm : Identifier.Usable name) (workDir : Location) {p : Path}
    (h : Path.ofText? (o.path name a) = some p) : p.target workDir = o.place name workDir a :=
  have ⟨hs, hn⟩ := usable_fileName hm a
  Path.target_join hs hn h workDir

section Write

-- What writing some of the files leaves behind.
structure Wrote (o : Output) (u : CompiledUnit) (as : List Artifact) (t t' : FileTree) : Prop where
  workDir   : t'.workDir = t.workDir
  directory : as ≠ [] → t'.node? (o.directory.target t.workDir) = some .directory
  held      : ∀ a ∈ as,
    t'.node? (o.place u.manifest.moduleName t.workDir a) = some (.file (a.text u))
  kept      : ∀ l ∉ as.map (o.place u.manifest.moduleName t.workDir), t'.node? l = t.node? l

theorem Wrote.nil : Wrote o u [] t t where
  workDir   := rfl
  directory := nofun
  held      := nofun
  kept _ _  := rfl

theorem Wrote.singleton (hm : Identifier.Usable u.manifest.moduleName)
    (h : t.after? (o.writeFile u a) = some t') : Wrote o u [a] t t' := by
  have ⟨hs, hn⟩ := usable_fileName hm a
  have ⟨p, hp, hw, hd, ht, hk⟩ := FileTree.after?_writeText?_eq_some h
  have hl := target_path hm t.workDir hp
  rw [hl] at ht hk
  refine ⟨hd, fun _ => ?_, List.forall_mem_singleton.mpr ht, by simpa using hk⟩
  have hne : o.directory.target t.workDir ≠ o.place u.manifest.moduleName t.workDir a := by
    simp [place]
  rw [hk _ hne]
  exact FileTree.node?_of_walk_join hs (fun he => hn (by simp [he])) hp hw

theorem Wrote.append {bs : List Artifact} (h : Wrote o u as t t') (h' : Wrote o u bs t' t'') :
    Wrote o u (as ++ bs) t t'' := by
  have hw := h.workDir
  obtain ⟨hw', hd, hh, hk⟩ := h'
  rw [hw] at hw' hd hh hk
  constructor
  case workDir => exact hw'
  case held =>
    intro a ha
    by_cases hb : a ∈ bs
    · exact hh a hb
    · rw [hk _ (place_mem_map_iff.not.mpr hb)]
      exact h.held a ((List.mem_append.mp ha).resolve_right hb)
  case kept =>
    intro l hl
    rw [List.map_append, List.mem_append, not_or] at hl
    exact (hk l hl.right).trans (h.kept l hl.left)
  case directory =>
    intro hne
    cases bs
    case nil  => rw [hk _ List.not_mem_nil, h.directory (by simpa using hne)]
    case cons => exact hd (List.cons_ne_nil _ _)

theorem wrote_of_writeFiles? (hm : Identifier.Usable u.manifest.moduleName)
    (h : o.writeFiles? u as t = some t') : Wrote o u as t t' := by
  induction as generalizing t
  case nil => exact Option.some.inj h ▸ .nil
  case cons a as hi =>
    rw [writeFiles?, List.foldlM_cons] at h
    have ⟨t₁, hw, h⟩ := Option.bind_eq_some_iff.mp h
    exact (Wrote.singleton hm hw).append (hi h)

theorem Wrote.untouched (h : Wrote o u as t t') (h' : FileTree.Untouched t' t'') :
    Wrote o u as t t'' where
  workDir      := h'.workDir.trans h.workDir
  directory hn := (h'.node? _).trans (h.directory hn)
  held a ha    := (h'.node? _).trans (h.held a ha)
  kept l hl    := (h'.node? _).trans (h.kept l hl)

theorem writeEach_cons (o : Output) (u : CompiledUnit) (a : Artifact) (as : List Artifact)
    (t : FileTree) : o.writeEach (m := StateM FileTree) u (a :: as) t =
      match t.after? (o.writeFile u a) with
      | some t' => o.writeEach (m := StateM FileTree) u as t'
      | none    => (.error (.file (o.path u.manifest.moduleName a)), t.asked) := by
  cases h : t.after? (o.writeFile u a)
  case none    => exact FileTree.bind_of_eq (FileTree.change_of_after?_eq_none h) _
  case some t' =>
    have ⟨hs, ht⟩ := FileTree.after?_eq_some_iff.mp h
    exact FileTree.bind_of_eq (Prod.ext hs ht) _

-- Files are written up to the first one that cannot be.
theorem exists_written (o : Output) (u : CompiledUnit) (as : List Artifact) (t : FileTree) :
    let r := o.writeEach (m := StateM FileTree) u as t
    (r.1 = .ok () ↔ (o.writeFiles? u as t).isSome) ∧
    ∃ written t', written <+: as ∧ (r.1 = .ok () ↔ written = as) ∧
      o.writeFiles? u written t = some t' ∧ t'.Untouched r.2 := by
  induction as generalizing t
  case nil =>
    exact ⟨⟨fun _ => rfl, fun _ => rfl⟩, [], t, List.prefix_rfl, ⟨fun _ => rfl, fun _ => rfl⟩, rfl,
      .refl⟩
  case cons a as hi =>
    have hc (written : List Artifact) : o.writeFiles? u (a :: written) t =
        t.after? (o.writeFile u a) >>= o.writeFiles? u written :=
      List.foldlM_cons
    rw [writeEach_cons, hc]
    cases hw : t.after? (o.writeFile u a)
    case none    => exact ⟨by simp, [], t, List.nil_prefix, by simp, rfl, .asked t⟩
    case some t₁ =>
      have ⟨hs, written, t', hp, ho, hf, hu⟩ := hi t₁
      refine ⟨hs, a :: written, t', List.prefix_cons_inj a |>.mpr hp, by simp [ho], ?_, hu⟩
      rw [hc, hw]
      exact hf

theorem write_eq (o : Output) (u : CompiledUnit) (t : FileTree) :
    o.write (m := StateM FileTree) u t =
      if (o.prepare t).1 then o.writeEach (m := StateM FileTree) u o.artifacts (o.prepare t).2
      else (.error (.directory o.dir), (o.prepare t).2) := by
  have hb (x : StateM FileTree Bool) : (do
      if ← x then o.writeEach (m := StateM FileTree) u o.artifacts
      else return .error (.directory o.dir)) t =
        if (x t).1 then o.writeEach (m := StateM FileTree) u o.artifacts (x t).2
        else (.error (.directory o.dir), (x t).2) := by
    have hx : x t = ((x t).1, (x t).2) := rfl
    rw [FileTree.bind_of_eq hx]
    cases (x t).1 <;> rfl
  unfold write prepare
  split
  case isTrue  => exact hb (return true)
  case isFalse => exact hb (FileTree.makeDirs o.dir)

theorem prepare_grown (o : Output) (t : FileTree) :
    FileTree.Grown (o.directory.Visits t.workDir) t (o.prepare t).2 := by
  unfold prepare
  split
  case isTrue  => exact .refl
  case isFalse => exact FileTree.makeDirs_grown ..

theorem write_ok_iff (o : Output) (u : CompiledUnit) (t : FileTree) :
    (o.write (m := StateM FileTree) u t).1 = .ok () ↔ (o.write? u t).isSome := by
  rw [write_eq, write?, FileTree.after?]
  split
  case isTrue  => exact (exists_written o u o.artifacts _).left
  case isFalse => simp

theorem write_effect (hm : Identifier.Usable u.manifest.moduleName) (o : Output) (t : FileTree) :
    let r := o.write (m := StateM FileTree) u t
    ∃ written t', written <+: o.artifacts ∧ (r.1 = .ok () ↔ written = o.artifacts) ∧
      FileTree.Grown (o.directory.Visits t.workDir) t t' ∧ Wrote o u written t' r.2 := by
  rw [write_eq]
  split
  case isTrue =>
    have ⟨_, written, t', hw, ho, hf, hu⟩ := exists_written o u o.artifacts (o.prepare t).2
    exact ⟨written, _, hw, ho, o.prepare_grown t, (wrote_of_writeFiles? hm hf).untouched hu⟩
  case isFalse =>
    exact ⟨[], _, List.nil_prefix, by simp [artifacts], o.prepare_grown t, .nil⟩

end Write

-- What a run leaves behind that has written some of the files of a module.
structure Left (o : Output) (u : CompiledUnit) (written : List Artifact) (t t' : FileTree) :
    Prop where
  directory : written ≠ [] → t'.node? (o.directory.target t.workDir) = some .directory
  held      : ∀ a ∈ written,
    t'.node? (o.place u.manifest.moduleName t.workDir a) = some (.file (a.text u))
  untouched : ∀ a ∉ written, t'.text? (o.place u.manifest.moduleName t.workDir a) =
    t.text? (o.place u.manifest.moduleName t.workDir a)
  confined  : ∀ l ∉ written.map (o.place u.manifest.moduleName t.workDir),
    t'.node? l = t.node? l ∨
      o.directory.Visits t.workDir l ∧ t.node? l = none ∧ t'.node? l = some .directory

theorem Wrote.left (h : Wrote o u as t' t'')
    (hg : FileTree.Grown (o.directory.Visits t.workDir) t t') : Left o u as t t'' := by
  obtain ⟨_, hd, hh, hk⟩ := h
  rw [hg.workDir] at hd hh hk
  refine ⟨hd, hh, fun a ha => ?_, fun l hl => hk l hl ▸ hg.node l⟩
  rw [FileTree.text?, FileTree.text?, hk _ (place_mem_map_iff.not.mpr ha)]
  rcases hg.node (o.place u.manifest.moduleName t.workDir a) with hn | ⟨_, hn, hn'⟩
  · rw [hn]
  · rw [hn, hn']

-- Only a path that leads back can make a directory where a file of the module belongs.
theorem Left.node?_eq (h : Left o u as t t') (hn : ".." ∉ o.directory.names) (ha : a ∉ as) :
    t'.node? (o.place u.manifest.moduleName t.workDir a) =
      t.node? (o.place u.manifest.moduleName t.workDir a) := by
  refine (h.confined _ (place_mem_map_iff.not.mpr ha)).resolve_right fun ⟨hv, _⟩ => ?_
  have hl := hv.length_le hn
  rw [place, List.length_append, List.length_singleton] at hl
  omega

end Output

namespace CommandLine

-- Looking for a file and reading it takes two operations.
def Reads (t : FileTree) (path : String) (c : Configuration) (t' : FileTree) : Prop :=
  t.refuses = false ∧ t.asked.refuses = false ∧ t.asked.asked = t' ∧
    ∃ text, t.readText? path = some text ∧ Configuration.parse? text = some c

-- A file that cannot be looked for counts as one that is not there.
def Misses (t : FileTree) (path : String) (t' : FileTree) : Prop :=
  (t.refuses ∨ t.pathExists path = false) ∧ t.asked = t'

namespace Invocation

-- Commands that write files.
def Emits (i : Invocation) : Prop :=
  i.command = .compile ∧ i.hasFlag .toStdout = false

-- The configuration of a run, and the tree after it is loaded. Only one that the arguments ask for
-- has to be there.
def Configured (i : Invocation) (t : FileTree) (c : Configuration) (t' : FileTree) : Prop :=
  match i.configuration? with
  | some path => Reads t path c t'
  | none      => Reads t Configuration.fileName c t' ∨
    Misses t Configuration.fileName t' ∧ c = {}

-- The module of a run, and the tree before anything is written.
def Compiles (i : Invocation) (t : FileTree) (c : Configuration) (u : CompiledUnit)
    (t' : FileTree) : Prop :=
  ∃ t₁, i.Configured t c t₁ ∧ t₁.refuses = false ∧ t₁.asked = t' ∧
    ∃ text document, t₁.readText? i.file = some text ∧
      Document.parse? text = some document ∧ compile (i.options c) document.interfaces = .ok u

end Invocation

section Load

open FileTree

theorem load?_eq (path : String) (t : FileTree) :
    ∃ r s, Configuration.load? (m := StateM FileTree) path t = (r, s) ∧ t.Untouched s ∧
      (∀ t', r = .ok none ∧ s = t' ↔ Misses t path t') ∧
      ∀ c t', r = .ok (some c) ∧ s = t' ↔ Reads t path c t' := by
  have ha := Untouched.asked t
  have hu := ha.trans (.asked t.asked)
  unfold Misses Reads Configuration.load?
  rw [pathExists_bind]
  cases hr : t.refuses
  case true  => exact ⟨.ok none, _, rfl, ha, by simp, by simp⟩
  case false =>
    rw [if_neg Bool.false_ne_true]
    cases he : t.pathExists path
    case false =>
      refine ⟨.ok none, _, rfl, ha, by simp, fun c t' => ⟨nofun, ?_⟩⟩
      intro ⟨_, _, _, text, hr, _⟩
      simp [pathExists_of_readText? hr] at he
    case true =>
      rw [Bool.not_true, if_neg Bool.false_ne_true, readText?_bind]
      cases hr : t.asked.refuses
      case true  => exact ⟨_, _, rfl, hu, by simp, by simp⟩
      case false =>
        have ht : t.asked.readText? path = t.readText? path := rfl
        rw [if_neg Bool.false_ne_true, ht]
        cases hr : t.readText? path
        case none      => exact ⟨_, _, rfl, hu, by simp, by simp⟩
        case some text =>
          dsimp only
          cases hp : Configuration.parse? text
          all_goals exact ⟨_, _, rfl, hu, by simp, by simp [hp, and_comm]⟩

theorem loadConfiguration_eq (i : Invocation) (t : FileTree) :
    ∃ r s, loadConfiguration (m := StateM FileTree) i.configuration? t = (r, s) ∧ t.Untouched s ∧
      ∀ c t', r = .ok c ∧ s = t' ↔ i.Configured t c t' := by
  unfold Invocation.Configured
  cases i.configuration?
  case some path =>
    have ⟨r, s, hr, hu, hn, hc⟩ := load?_eq path t
    rw [loadConfiguration, bind_of_eq hr]
    simp only [← hc]
    rcases r with e | _ | c
    all_goals exact ⟨_, _, rfl, hu, by simp⟩
  case none      =>
    have ⟨r, s, hr, hu, hn, hc⟩ := load?_eq Configuration.fileName t
    rw [loadConfiguration, bind_of_eq hr]
    simp only [← hn, ← hc]
    rcases r with e | _ | c
    all_goals exact ⟨_, _, rfl, hu, by simp [and_comm, eq_comm]⟩

theorem compileFile_eq (options : Options) (file : String) (t : FileTree) :
    ∃ r, compileFile (m := StateM FileTree) options file t = (r, t.asked) ∧
      ∀ u, r = .ok u ↔ t.refuses = false ∧ ∃ text document, t.readText? file = some text ∧
        Document.parse? text = some document ∧ compile options document.interfaces = .ok u := by
  rw [compileFile, readText?_bind]
  cases hr : t.refuses
  case true  => exact ⟨_, rfl, by simp⟩
  case false =>
    rw [if_neg Bool.false_ne_true]
    cases hr : t.readText? file
    case none      => exact ⟨_, rfl, by simp⟩
    case some text =>
      dsimp only
      cases hp : Document.parse? text
      case none          => exact ⟨_, rfl, by simp [hp]⟩
      case some document =>
        dsimp only
        cases hc : compile options document.interfaces
        all_goals exact ⟨_, rfl, by simp [hp, hc]⟩

end Load

section Run

variable {t t' : FileTree} {i : Invocation} {c : Configuration} {u : CompiledUnit}

namespace Invocation

theorem run_of_compiles (h : i.Compiles t c u t') :
    t.Untouched t' ∧ i.run (m := StateM FileTree) t = i.finish (m := StateM FileTree) c u t' := by
  have ⟨t₁, hc, hf, ht, hd⟩ := h
  have ⟨r, s, hr, hs, hrs⟩ := loadConfiguration_eq i t
  have ⟨r', hr', hu⟩ := compileFile_eq (i.options c) i.file t₁
  obtain ⟨rfl, rfl⟩ := (hrs c t₁).mpr hc
  obtain rfl := (hu u).mpr ⟨hf, hd⟩
  subst ht
  rw [run, FileTree.bind_of_eq hr]
  exact ⟨hs.trans (.asked s), FileTree.bind_of_eq hr' _⟩

-- A run that comes to no module fails and changes nothing.
theorem run_of_not_compiles (h : ∀ c u t', ¬i.Compiles t c u t') :
    ∃ f t', i.run (m := StateM FileTree) t = (.failed f [], t') ∧ t.Untouched t' := by
  have ⟨r, t₁, hr, ht, hc⟩ := loadConfiguration_eq i t
  rw [run, FileTree.bind_of_eq hr]
  cases r
  case error f => exact ⟨f, t₁, rfl, ht⟩
  case ok c    =>
    have ⟨r', hr', hu⟩ := compileFile_eq (i.options c) i.file t₁
    dsimp only
    rw [FileTree.bind_of_eq hr']
    cases r'
    case error f => exact ⟨f, _, rfl, ht.trans (.asked t₁)⟩
    case ok u    =>
      have ⟨hf, hd⟩ := (hu u).mp rfl
      exact absurd ⟨t₁, (hc c t₁).mp ⟨rfl, rfl⟩, hf, rfl, hd⟩ (h c u _)

theorem finish_of_not_emits (h : ¬i.Emits) (c : Configuration) (u : CompiledUnit) (t : FileTree) :
    ∃ o, i.finish (m := StateM FileTree) c u t = (o, t) ∧ o.status = 0 := by
  unfold finish
  cases hc : i.command
  case compile =>
    cases hs : i.hasFlag .toStdout
    case true  => exact ⟨_, rfl, rfl⟩
    case false => exact absurd ⟨hc, hs⟩ h
  all_goals exact ⟨_, rfl, rfl⟩

theorem finish_of_emits (h : i.Emits) (c : Configuration) (u : CompiledUnit) (t : FileTree) :
    let r := (i.output c).write (m := StateM FileTree) u t
    ∃ o, i.finish (m := StateM FileTree) c u t = (o, r.2) ∧ (o.status = 0 ↔ r.1 = .ok ()) := by
  intro r
  have he : i.finish (m := StateM FileTree) c u t = i.emit (m := StateM FileTree) c u t := by
    rw [finish, h.left]
    dsimp only
    rw [h.right]
    rfl
  rw [he, emit]
  have hr : (i.output c).write (m := StateM FileTree) u t = (r.1, r.2) := rfl
  rw [FileTree.bind_of_eq hr]
  rcases r.1 with e | _
  case error => exact ⟨_, rfl, by simp [Outcome.failed]⟩
  case ok    => exact ⟨_, rfl, by simp⟩

theorem run_status (i : Invocation) (t : FileTree) :
    (i.run (m := StateM FileTree) t).1.status = 0 ↔
      ∃ c u t', i.Compiles t c u t' ∧ (i.Emits → ((i.output c).write? u t').isSome) := by
  constructor
  case mp =>
    intro hs
    by_cases h : ∃ c u t', i.Compiles t c u t'
    · have ⟨c, u, t', hc⟩ := h
      refine ⟨c, u, t', hc, fun he => ?_⟩
      have ⟨_, hf, ho⟩ := finish_of_emits he c u t'
      rw [(run_of_compiles hc).right, hf] at hs
      exact (Output.write_ok_iff ..).mp (ho.mp hs)
    · have ⟨f, t', hr, _⟩ := run_of_not_compiles fun c u t' hc => h ⟨c, u, t', hc⟩
      rw [hr] at hs
      exact absurd hs (by simp [Outcome.failed])
  case mpr =>
    intro ⟨c, u, t', hc, hw⟩
    rw [(run_of_compiles hc).right]
    by_cases he : i.Emits
    · have ⟨_, hf, ho⟩ := finish_of_emits he c u t'
      rw [hf]
      exact ho.mpr ((Output.write_ok_iff ..).mpr (hw he))
    · have ⟨_, hf, ho⟩ := finish_of_not_emits he c u t'
      rw [hf]
      exact ho

theorem run_untouched (h : i.Emits → ∀ c u t', ¬i.Compiles t c u t') :
    t.Untouched (i.run (m := StateM FileTree) t).2 := by
  by_cases hc : ∃ c u t', i.Compiles t c u t'
  · have ⟨c, u, t', hc⟩ := hc
    have ⟨ht, hr⟩ := run_of_compiles hc
    have ⟨_, hf, _⟩ := finish_of_not_emits (fun he => h he c u t' hc) c u t'
    rw [hr, hf]
    exact ht
  · have ⟨f, t', hr, ht⟩ := run_of_not_compiles fun c u t' h => hc ⟨c, u, t', h⟩
    rw [hr]
    exact ht

theorem Compiles.usable (h : i.Compiles t c u t') :
    Identifier.Usable u.manifest.moduleName ∧
      u.manifest.moduleName = (i.options c).moduleName := by
  have ⟨_, _, _, _, _, document, _, _, h⟩ := h
  have ⟨hm, plans, _, hu⟩ := compile_eq_ok_iff.mp h
  subst hu
  exact ⟨Role.check_eq_ok_iff.mp hm, rfl⟩

end Invocation

end Run

-- Any operation may be refused. A run that is asked for no files, or that comes to no module,
-- changes nothing. Any other run makes the directories on the way to its own, and writes the files
-- of its module there in their order, up to the first one that cannot be written. The status tells
-- whether all was possible.
theorem run_confined (i : Invocation) (t : FileTree) :
    let r := i.run (m := StateM FileTree) t
    (r.1.status = 0 ↔
      ∃ c u t', i.Compiles t c u t' ∧ (i.Emits → ((i.output c).write? u t').isSome)) ∧
    ((i.Emits → ∀ c u t', ¬i.Compiles t c u t') →
      ∃ n, r.2 = { t with refusals := t.refusals.drop n }) ∧
    ∀ c u t', i.Emits → i.Compiles t c u t' →
      let o := i.output c
      let name := (i.options c).moduleName
      u.manifest.moduleName = name ∧ Function.Injective (o.place name t.workDir) ∧
      (∀ a p, Path.ofText? (o.path name a) = some p →
        p.target t.workDir = o.directory.target t.workDir ++ [name ++ a.suffix]) ∧
      ∃ written, written <+: o.artifacts ∧ (r.1.status = 0 ↔ written = o.artifacts) ∧
        o.Left u written t r.2 ∧
        (".." ∉ o.directory.names → ∀ a ∉ written,
          r.2.node? (o.place name t.workDir a) = t.node? (o.place name t.workDir a)) := by
  refine ⟨i.run_status t, Invocation.run_untouched, fun c u t' he hc => ?_⟩
  have ⟨hu, hn⟩ := hc.usable
  have ⟨ht, hr⟩ := Invocation.run_of_compiles hc
  have ⟨_, hf, hs⟩ := Invocation.finish_of_emits he c u t'
  have ⟨written, t₁, hw, ho, hg, hw'⟩ := Output.write_effect hu (i.output c) t'
  have hg : FileTree.Grown ((i.output c).directory.Visits t.workDir) t t₁ :=
    ht.grown.trans (ht.workDir ▸ hg)
  have hl := hw'.left hg
  rw [hr, hf]
  refine ⟨hn, Output.place_injective .., fun a p => Output.target_path (hn ▸ hu) _, written, hw,
    hs.trans ho, hl, fun hd a ha => ?_⟩
  exact hn ▸ hl.node?_eq hd ha

-- The directory is reached through another one, and both are missing.
theorem run_confined_gen :
    let i : Invocation := {
      command := .compile
      file    := "m.json"
      before  := {}
      after   := { settings := [(.output, "out/../gen")] } }
    let t : FileTree := { entries := [(["m.json"], .file "\x7b\"interfaces\": []\x7d")] }
    let r := i.run (m := StateM FileTree) t
    ∃ u t', i.Emits ∧ i.Compiles t {} u t' ∧ r.1.status = 0 ∧
      r.2.node? ["gen"] = some .directory ∧
      r.2.node? ["gen", "binding.cc"] = some (.file u.code) ∧
      r.2.node? ["gen", "binding.manifest.json"] = some (.file (u.manifest.text ++ "\n")) ∧
      r.2.text? ["gen", "binding.d.ts"] = t.text? ["gen", "binding.d.ts"] := by
  intro i t r
  have hs : r.1.status = 0 := by decide +kernel
  have he : i.Emits := ⟨rfl, rfl⟩
  have hn : t.readText? Configuration.fileName = none := by decide +kernel
  have ⟨c, u, t', hc, _⟩ := (run_confined i t).left.mp hs
  obtain rfl : c = {} := by
    rcases hc.choose_spec.left with ⟨_, _, _, _, hr, _⟩ | ⟨_, hd⟩
    · cases hn.symm.trans hr
    · exact hd
  have ⟨hu, _, _, written, _, ho, hl, _⟩ := (run_confined i t).right.right {} u t' he hc
  have hw := ho.mp hs
  have hd : (i.output {}).directory.target t.workDir = ["gen"] := by decide +kernel
  have hp (a : Artifact) : (i.output {}).place u.manifest.moduleName t.workDir a =
      ["gen", "binding" ++ a.suffix] := by
    rw [Output.place, hd, hu]
    rfl
  have hh (a : Artifact) (ha : a ∈ (i.output {}).artifacts) := hp a ▸ hl.held a (hw ▸ ha)
  refine ⟨u, t', he, hc, hs, ?_, hh .source (by decide), hh .manifest (by decide), ?_⟩
  · exact hd ▸ hl.directory (by simp [hw, Output.artifacts])
  · exact hp .typings ▸ hl.untouched .typings (by rw [hw]; decide)

end CommandLine

end AddonBinding

import AddonBinding.FileTree.Path
import AddonBinding.Files

namespace AddonBinding

-- The names on the way from the root.
abbrev Location :=
  List String

inductive FileNode where
  | directory
  | file (text : String)
deriving DecidableEq

-- The working directory, and with it all above it, is there from the start. Of several entries for
-- a location the first one counts.
structure FileTree where
  workDir : Location := []
  entries : List (Location × FileNode) := []
  -- Which of the next operations fail, whatever is there.
  refusals : List Bool := []

namespace FileTree

-- Why a path leads nowhere: a directory on the way is not there, or something is in the way.
inductive Obstacle where
  | missing
  | blocked
deriving DecidableEq

def node? (t : FileTree) (l : Location) : Option FileNode :=
  if l.isPrefixOf t.workDir then some .directory else t.entries.lookup l

def put (l : Location) (node : FileNode) (t : FileTree) : FileTree :=
  { t with entries := (l, node) :: t.entries }

theorem node?_put_of_ne {l k : Location} (t : FileTree) (node : FileNode) (h : k ≠ l) :
    (t.put l node).node? k = t.node? k := by
  simp [node?, put, List.lookup_cons, beq_eq_false_iff_ne.mpr h]

theorem node?_put_self {l : Location} (t : FileTree) (node : FileNode)
    (h : l.isPrefixOf t.workDir = false) : (t.put l node).node? l = some node := by
  simp [node?, put, h]

def enter (t : FileTree) (l : Location) : Except Obstacle Location :=
  match t.node? l with
  | some .directory => .ok l
  | some (.file _) => .error .blocked
  | none => .error .missing

-- The location under a name in a directory, whether something is there or not.
def step (t : FileTree) (l : Location) (name : String) : Except Obstacle Location := do
  let l ← t.enter l
  if name = "." then return l
  else if name = ".." then return l.dropLast
  else if Path.nameLimit ≤ name.utf8ByteSize then throw .blocked
  else return l ++ [name]

def walk (t : FileTree) (p : Path) : Except Obstacle Location :=
  p.names.foldlM t.step (if p.absolute then [] else t.workDir)

-- Behind a slash at the end of a path a directory has to be.
def locate (t : FileTree) (p : Path) : Except Obstacle Location := do
  let l ← t.walk p
  if p.slash then t.enter l else return l

def locateText? (t : FileTree) (path : String) : Option Location := do
  (t.locate (← Path.ofText? path)).toOption

def pathExists (t : FileTree) (path : String) : Bool :=
  ((t.locateText? path).bind t.node?).isSome

def readText? (t : FileTree) (path : String) : Option String := do
  match ← t.node? (← t.locateText? path) with
  | .file text => some text
  | .directory => none

def writeText? (t : FileTree) (path text : String) : Option FileTree := do
  let l ← t.locateText? path
  guard (t.node? l ≠ some .directory)
  return t.put l (.file text)

def makeDir (t : FileTree) (p : Path) : Except Obstacle FileTree := do
  let l ← t.walk p
  if (t.node? l).isSome then throw .blocked
  return t.put l .directory

def isDirectory (t : FileTree) (p : Path) : Bool :=
  (t.walk p).toOption.any fun l => t.node? l = some .directory

section Operations

def refuses (t : FileTree) : Bool :=
  t.refusals.headD false

-- The tree after an operation was asked for.
def asked (t : FileTree) : FileTree :=
  { t with refusals := t.refusals.tail }

def answer {α : Type} (refusal : α) (look : FileTree → α) : StateM FileTree α :=
  fun t => (if t.refuses then refusal else look t, t.asked)

def change (f : FileTree → Option FileTree) : StateM FileTree Bool :=
  fun t => match if t.refuses then none else f t.asked with
    | some t => (true, t)
    | none => (false, t.asked)

def tryMakeDir (p : Path) : StateM FileTree (Except Obstacle Unit) :=
  fun t => match if t.refuses then .error .blocked else t.asked.makeDir p with
    | .ok t => (.ok (), t)
    | .error e => (.error e, t.asked)

def makeDirAgain (p : Path) : StateM FileTree Bool := do
  match ← tryMakeDir p with
  | .ok () => return true
  | .error _ => answer false (·.isDirectory p)

def makeDirAfter (parents : StateM FileTree Bool) (p : Path) : StateM FileTree Bool := do
  match ← tryMakeDir p with
  | .ok () => return true
  | .error .blocked => answer false (·.isDirectory p)
  | .error .missing => if ← parents then makeDirAgain p else return false

-- Parents that are missing are made, and stay if the directory itself cannot be made.
def makeDirFrom (p : Path) : List Path → StateM FileTree Bool
  | [] => makeDirAfter (return true) p
  | parent :: parents => makeDirAfter (makeDirFrom parent parents) p

def makeDirs (path : String) : StateM FileTree Bool :=
  match Path.ofText? path with
  | some p => makeDirFrom p p.parents
  | none => return false

instance : MonadFiles (StateM FileTree) where
  pathExists path := answer false (·.pathExists path)
  readText? path := answer none (·.readText? path)
  makeDirs := makeDirs
  writeText path text := change (·.writeText? path text)

-- The tree after an operation that succeeds.
def after? (operation : StateM FileTree Bool) (t : FileTree) : Option FileTree :=
  if (operation t).1 then some (operation t).2 else none

def makeDirs? (t : FileTree) (path : String) : Option FileTree :=
  after? (makeDirs path) t

end Operations

-- The texts of files in and below the working directory, by their paths from there.
def texts (t : FileTree) : List (String × String) :=
  let locations := (t.entries.map (·.1)).eraseDups.filter t.workDir.isPrefixOf
  locations.filterMap fun l => match t.node? l with
    | some (.file text) => some ("/".intercalate (l.drop t.workDir.length), text)
    | _ => none

end FileTree

end AddonBinding

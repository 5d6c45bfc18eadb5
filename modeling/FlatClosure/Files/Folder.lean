/-
Folders: a working directory and the file system around it.

* `Folder`: directories and files by the components of their paths from the
  root, the working directory, and how many bytes there is room for.
* `Folder.walk`, `Folder.openRead`, `Folder.openWrite`: where a path leads.
  Every directory on the way has to exist. A path without a slash in front
  starts in the working directory, and may leave it.
* `Folder.read`, `Folder.write`: reading a file and replacing its content. A
  file is emptied when it is opened for writing; where room runs out, it keeps
  what was written so far.
* `Folder.copy`: copies a file. The target is emptied before the source is
  read, so a file copied to itself ends up empty.
* `Folder.makeDir`, `Folder.makeTemp`: a new directory, by its path or under a
  name that is not yet used.
* `FileError`: the operation, the path as given, and the reason.
* `Folder.changed`: the files below the working directory that are new or have
  another content.

There are no links, and all files and directories may be read and written.
-/
import FlatClosure.Files.Path

namespace FlatClosure

/-! ### Errors -/

/-- Why a file operation failed. -/
inductive FileError.Reason where
  | noSuchFile
  | isDirectory
  | notDirectory
  | exists
  | noSpace
  deriving DecidableEq, Inhabited

/-- The operation that failed. -/
inductive FileError.Operation where
  | opening
  | reading
  | writing
  | inspecting
  | makingDirectory
  | makingTemp
  deriving DecidableEq, Inhabited

/-- A file operation failed. -/
structure FileError where
  operation : FileError.Operation
  path : Text
  reason : FileError.Reason
  deriving DecidableEq, Inhabited

/-- The message of a file error. -/
def FileError.message (e : FileError) : Text :=
  let operation : Text :=
    match e.operation with
    | .opening => "open"
    | .reading => "read"
    | .writing => "write"
    | .inspecting => "stat"
    | .makingDirectory => "mkdir"
    | .makingTemp => "mkdirtemp"
  let reason : Text :=
    match e.reason with
    | .noSuchFile => "no such file or directory"
    | .isDirectory => "is a directory"
    | .notDirectory => "not a directory"
    | .exists => "file already exists"
    | .noSpace => "no space left on device"
  operation ++ " " ++ e.path ++ ": " ++ reason

/-! ### Folders -/

/-- A place in the file system, by components from the root. -/
abbrev Place := List Text

/-- A working directory and the file system around it. -/
structure Folder where
  /-- The working directory. -/
  home : Place
  dirs : List Place
  files : List (Place × Text)
  /-- How many bytes all files together can have, if there is a bound. -/
  capacity : Option Nat
  /-- The working directory exists, with all directories above it. -/
  home_dirs : ∀ place, place <+: home → place = [] ∨ place ∈ dirs

/-- What stands at a place. -/
inductive Node where
  | dir
  | file (content : Text)

namespace Folder

/-- The folder with nothing in it, and nothing in the directories above it. -/
def emptyAt (home : Place) : Folder where
  home := home
  dirs := (List.range home.length).map fun n => home.take (n + 1)
  files := []
  capacity := none
  home_dirs := by
    intro place hplace
    cases place with
    | nil => exact .inl rfl
    | cons c rest =>
      have hlength : rest.length < home.length := hplace.length_le
      refine .inr (List.mem_map.mpr ⟨rest.length, List.mem_range.mpr hlength, ?_⟩)
      exact (List.prefix_iff_eq_take.mp hplace).symm

/-- An empty folder in the directory for temporary files. -/
def empty : Folder := emptyAt ["tmp", "work"]

/-- What stands at a place. The root is a directory. -/
def node? (folder : Folder) (place : Place) : Option Node :=
  if place.isEmpty || folder.dirs.contains place then some .dir
  else (folder.files.lookup place).map .file

/-- The folder with a content at a place, where a file may stand already. -/
def put (folder : Folder) (place : Place) (content : Text) : Folder :=
  if (folder.files.lookup place).isSome then
    { folder with
      files := folder.files.map fun f => if f.1 = place then (place, content) else f }
  else { folder with files := folder.files ++ [(place, content)] }

/-- The folder with directories at some places. -/
def putDirs (folder : Folder) (places : List Place) : Folder :=
  { folder with
    dirs := folder.dirs ++ places
    home_dirs := fun place hplace =>
      (folder.home_dirs place hplace).imp_right (List.mem_append_left places) }

/-! ### Building a folder -/

/-- The folder with a directory and all directories above it, by a path from the
working directory. -/
def addDir (folder : Folder) (path : Text) : Folder :=
  let components := (Path.components (Path.clean path)).filter (· ≠ ("." : Text))
  folder.putDirs
    ((List.range components.length).map fun n => folder.home ++ components.take (n + 1))

/-- The folder with a file and all directories above it. -/
def addFile (folder : Folder) (path content : Text) : Folder :=
  (folder.addDir (Path.parent path)).put (folder.home ++ Path.components (Path.clean path)) content

/-! ### Finding places -/

/-- Whether a component names no entry of a directory but the directory itself
or the one above it. -/
def isDirStep (component : Text) : Bool :=
  component.isEmpty || component == ("." : Text) || component == (".." : Text)

/-- The directory that such a component leads to. Nothing lies above the root. -/
def dirStep (place : Place) (component : Text) : Place :=
  if component = (".." : Text) then place.dropLast else place

/-- The directory that a list of components leads to. -/
def walk (folder : Folder) : Place → List Text → Except FileError.Reason Place
  | place, [] => .ok place
  | place, component :: rest =>
    if isDirStep component then folder.walk (dirStep place component) rest
    else
      match folder.node? (place ++ [component]) with
      | none => .error .noSuchFile
      | some (.file _) => .error .notDirectory
      | some .dir => folder.walk (place ++ [component]) rest

/-- Where a path starts. -/
def origin (folder : Folder) (path : Text) : Place :=
  if Path.isRooted path then [] else folder.home

/-- What a path leads to when it is opened for reading. -/
def openRead (folder : Folder) (path : Text) : Except FileError.Reason Node :=
  if path.isEmpty then .error .noSuchFile
  else
    let components := Path.components path
    let last := components.getLastD []
    match folder.walk (folder.origin path) components.dropLast with
    | .error reason => .error reason
    | .ok place =>
      if isDirStep last then .ok .dir
      else
        match folder.node? (place ++ [last]) with
        | none => .error .noSuchFile
        | some node => .ok node

/-- The place of the file that a path names when it is opened for writing. A
path that ends in a slash names no file. -/
def openWrite (folder : Folder) (path : Text) : Except FileError.Reason Place :=
  if path.isEmpty then .error .noSuchFile
  else
    let named := Path.named path
    let last := named.getLastD []
    match folder.walk (folder.origin path) named.dropLast with
    | .error reason => .error reason
    | .ok place =>
      if named.length < (Path.components path).length || isDirStep last then .error .isDirectory
      else
        match folder.node? (place ++ [last]) with
        | some .dir => .error .isDirectory
        | _ => .ok (place ++ [last])

/-! ### Operations -/

/-- The content of a file. -/
def read (folder : Folder) (path : Text) : Except FileError Text :=
  match folder.openRead path with
  | .error reason => .error ⟨.opening, path, reason⟩
  | .ok .dir => .error ⟨.reading, path, .isDirectory⟩
  | .ok (.file content) => .ok content

/-- How many bytes the files at other places have. -/
def usedBeside (folder : Folder) (place : Place) : Nat :=
  (folder.files.filter (·.1 ≠ place)).foldl (fun used f => used + f.2.length) 0

/-- As much of a content as there is room for at a place. -/
def fitting (folder : Folder) (place : Place) (content : Text) : Text :=
  match folder.capacity with
  | none => content
  | some capacity => content.take (capacity - folder.usedBeside place)

/-- The outcome of writing a content to a file, and the folder after it. -/
def write (folder : Folder) (path content : Text) : Except FileError Unit × Folder :=
  match folder.openWrite path with
  | .error reason => (.error ⟨.opening, path, reason⟩, folder)
  | .ok place =>
    (if folder.fitting place content = content then .ok () else .error ⟨.writing, path, .noSpace⟩,
      folder.put place (folder.fitting place content))

/-- The outcome of copying a file, and the folder after it. -/
def copy (folder : Folder) (source target : Text) : Except FileError Unit × Folder :=
  match folder.openRead source with
  | .error reason => (.error ⟨.opening, source, reason⟩, folder)
  | .ok _ =>
    match folder.write target [] with
    | (.error e, emptied) => (.error e, emptied)
    | (.ok (), emptied) =>
      match emptied.read source with
      | .error e => (.error e, emptied)
      | .ok content => emptied.write target content

/-- The folder with a new directory. -/
def makeDir (folder : Folder) (path : Text) : Except FileError.Reason Folder :=
  let named := Path.named path
  let last := named.getLastD []
  match folder.walk (folder.origin path) named.dropLast with
  | .error reason => .error reason
  | .ok place =>
    if isDirStep last then .error .exists
    else
      match folder.node? (place ++ [last]) with
      | some _ => .error .exists
      | none => .ok (folder.putDirs [place ++ [last]])

/-- How many names are tried for a new directory. -/
def tempTries : Nat := 10000

/-- A new directory in `dir` whose path is `front` and a number. So many numbers are
drawn until one is not used yet. -/
def makeNumbered (folder : Folder) (drawn : Nat → Nat) (dir front : Text) :
    (tries : Nat) → Except FileError Text × Folder
  | 0 => (.error ⟨.makingTemp, front ++ "*", .exists⟩, folder)
  | tries + 1 =>
    let path := front ++ Text.ofNat (drawn tries)
    match folder.makeDir path with
    | .ok made => (.ok path, made)
    | .error .exists => folder.makeNumbered drawn dir front tries
    | .error .noSuchFile => (.error ⟨.inspecting, dir, .noSuchFile⟩, folder)
    | .error reason => (.error ⟨.makingDirectory, path, reason⟩, folder)

/-- A new directory in `dir` whose name is a stem and a number that is drawn; its
path, and the folder after it. -/
def makeTemp (folder : Folder) (drawn : Nat → Nat) (dir stem : Text) :
    Except FileError Text × Folder :=
  folder.makeNumbered drawn dir (Path.inside dir stem) tempTries

/-- The files below the working directory that are new or have another content
than before. -/
def changed (before after : Folder) : List (Text × Text) :=
  (after.files.filter fun f =>
      before.home.isPrefixOf f.1 && before.files.lookup f.1 != some f.2).map fun f =>
    (Text.join "/" (f.1.drop before.home.length), f.2)

end Folder

end FlatClosure

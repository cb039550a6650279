/-
Fork discovery: scan `.autofork/forks/` trees for fork definitions.

Two layouts are supported inside a forks root, in any mix: a bare
`<name>.md` file and a `<name>/FORK.md` folder. Other subfolders are
organizational and are descended into (capped nesting). When two places
define the same name, the first discovered wins.

The file system is what its calls return. File names are bytes; a path
is text, as every name on the way to a fork is.
-/
import Autofork.Lib.Utf8
import Autofork.Planner

namespace Autofork

open Lib

-- ========================================================= file system

/-- The file system as discovery reads it. -/
structure Files where
  /-- The names in a folder, in any order; none if it cannot be read. -/
  readDir : Path → Option (List (List UInt8))
  isDir : Path → Bool
  isFile : Path → Bool
  /-- A file's text, or the error's. -/
  readToString : Path → Except String String
  canonicalize : Path → Option Path
  parseForkFile : String → String → ForkParse

/-- `Path::join`. -/
def joinPath (dir : Path) (name : String) : Path :=
  if dir = "" ∨ dir.toList.getLast? = some '/' then dir ++ name
  else dir ++ "/" ++ name

/-- A path and its parents, nearest first; `.` is a part like others. -/
def ancestors (path : Path) : List Path :=
  let parts := (path.toList.splitOn '/').filter (· ≠ [])
  let top := if path.toList.head? = some '/' then "/" else ""
  (List.range (parts.length + 1)).reverse.map fun k =>
    top ++ "/".intercalate ((parts.take k).map String.ofList)

-- =============================================================== roots

variable (fs : Files)

/-- The `.autofork/forks` roots relevant to `dir`: each ancestor's,
nearest first, then the user-level one if not already among them. -/
def forkRoots (dir : Path) (userForksRoot : Option Path) : List Path :=
  let start := (fs.canonicalize dir).getD dir
  let roots := ((ancestors start).map fun d =>
    joinPath (joinPath d ".autofork") "forks").filter fs.isDir
  match userForksRoot with
  | some user =>
      let user := (fs.canonicalize user).getD user
      if fs.isDir user && !roots.contains user then roots ++ [user] else roots
  | none => roots

-- ================================================================ scan

/-- Cap on organizational-subfolder nesting below a forks root. -/
def maxForkNestingDepth : Nat := 8

/-- A discovered fork definition, with the forks root it came from. -/
structure FoundFork extends ForkEntry where
  root : Path
  deriving DecidableEq, Repr

/-- What has been discovered: entries in discovery order, and warnings. -/
structure Found where
  entries : List FoundFork := []
  warnings : List String := []
  deriving DecidableEq, Repr

def Found.warn (found : Found) (warning : String) : Found :=
  { found with warnings := found.warnings ++ [warning] }

/-- The warning about a fork that lost its name to another. -/
def shadowedWarning (name : String) (path kept : Path) : String :=
  "fork '" ++ name ++ "' at " ++ path ++ " shadowed by " ++ kept

/-- A file that may define the fork `name`. -/
def insertEntry (found : Found) (name : String) (path root : Path) : Found :=
  match fs.readToString path with
  | .error e => found.warn ("failed to read " ++ path ++ ": " ++ e)
  | .ok content => match fs.parseForkFile name content with
    | .notFork true => found.warn (path
        ++ " has fork-like frontmatter but no `fork: true` — not treated as a fork")
    | .notFork false => found
    | .invalid => found.warn ("fork '" ++ name ++ "' at " ++ path
        ++ " has invalid frontmatter YAML, skipped")
    -- only real forks reserve a name or shadow others
    | .fork parsed => match found.entries.find? fun e => e.name == name with
      | some existing =>
          if existing.path = path then found
          else found.warn (shadowedWarning name path existing.path)
      | none => { found with
          entries := found.entries ++ [{ name, path, parsed, root }] }

/-- The names of a folder as they are visited: by their bytes. -/
def sortedNames (names : List (List UInt8)) : List (List UInt8) :=
  names.insertionSort (· ≤ ·)

/-- What an entry's file name says: nothing if it is no text or begins
with a dot. -/
def visibleName (bytes : List UInt8) : Option (List Char) :=
  (decode bytes).filter fun name => name.head? ≠ some '.'

/-- `strip_suffix(".md")`, of a name with something before it. -/
def mdStem (name : List Char) : Option (List Char) :=
  if ".md".toList <:+ name ∧ name.length ≠ 3 then some (name.take (name.length - 3))
  else none

/-- Scan a folder, `levels` above the nesting cap. -/
def scanForksDir (root : Path) : Nat → Path → Found → Found
  | 0, _, found => found
  | levels + 1, dir, found => match fs.readDir dir with
    | none => found
    | some names => (sortedNames names).foldl (fun found bytes =>
        match visibleName bytes with
        | none => found
        | some name =>
            let path := joinPath dir (String.ofList name)
            if fs.isDir path then
              let forkMd := joinPath path "FORK.md"
              if fs.isFile forkMd then
                insertEntry fs found (String.ofList name) forkMd root
              else scanForksDir root levels path found
            else match mdStem name with
              | some stem => insertEntry fs found (String.ofList stem) path root
              | none => found) found

/-- Scan a list of roots, nearest first. -/
def scanRoots (roots : List Path) : Found :=
  roots.foldl (fun found root =>
    scanForksDir fs root (maxForkNestingDepth + 1) root found) {}

/-- Discover all forks visible from `dir`. -/
def discoverForks (dir : Path) (userForksRoot : Option Path) : Found :=
  scanRoots fs (forkRoots fs dir userForksRoot)

/-- The disk, its forks being what these files say. -/
def Disk.withFiles (disk : Disk) (userForksRoot : Path) : Disk :=
  { disk with
    discover := fun dir =>
      (discoverForks fs dir (some userForksRoot)).entries.map
        FoundFork.toForkEntry
    readToString := fun path => (fs.readToString path).toOption
    parseForkFile := fs.parseForkFile }

end Autofork

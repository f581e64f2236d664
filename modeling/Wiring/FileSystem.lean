import Wiring.Path
import Wiring.Text.Utf8

/-!
A file system as a value: a tree of directories and files below one root, and the directory that
relative paths start from. Every write of a file is stamped with the number of writes before it, so
a file that is left alone keeps its stamp.
-/
namespace Wiring

inductive FileError
  | notFound
  | exists
  | notADirectory
  | isADirectory
  | nameTooLong
  | zeroInPath
deriving DecidableEq, Repr

def FileError.message : FileError → String
  | .notFound => "No such file or directory (os error 2)"
  | .exists => "File exists (os error 17)"
  | .notADirectory => "Not a directory (os error 20)"
  | .isADirectory => "Is a directory (os error 21)"
  | .nameTooLong => "File name too long (os error 36)"
  | .zeroInPath => "file name contained an unexpected NUL byte"

inductive Node
  | directory
  | file (bytes : List UInt8) (stamp : Nat)
deriving DecidableEq, Repr

/-- The names on the way from the root to a node. -/
abbrev Place := List (List Char)

structure FileSystem where
  nodes : List (Place × Node)
  here : Place
  clock : Nat
deriving DecidableEq, Repr

namespace FileSystem

def emptyAt (here : Place) : FileSystem :=
  ⟨(List.range here.length).map fun i => (here.take (i + 1), .directory), here, 0⟩

/-- The root is always there. -/
def node? (fs : FileSystem) (p : Place) : Option Node :=
  if p = [] then some .directory else fs.nodes.lookup p

def isDirectory (fs : FileSystem) (p : Place) : Bool := fs.node? p == some .directory

def put (fs : FileSystem) (p : Place) (n : Node) : FileSystem :=
  { fs with nodes := (p, n) :: fs.nodes.filter fun e => e.1 ≠ p }

def maxNameBytes : Nat := 255

def maxPathBytes : Nat := 4095

def byteLength (cs : List Char) : Nat := (String.ofList cs).utf8ByteSize

/-- Goes down from the directory `at` to where the components lead. -/
def walk (fs : FileSystem) : Place → List (List Char) → Except FileError Place
  | start, [] => .ok start
  | start, c :: rest =>
      if ¬fs.isDirectory start then .error .notADirectory
      else if c = ['.', '.'] then fs.walk start.dropLast rest
      else if maxNameBytes < byteLength c then .error .nameTooLong
      else if (fs.node? (start ++ [c])).isNone then .error .notFound
      else fs.walk (start ++ [c]) rest

def origin (fs : FileSystem) (p : Path) : Place := if p.isAbsolute then [] else fs.here

/-- Whether a path can be handed to the system at all. -/
def permitted (p : Path) : Except FileError Unit :=
  if p.text.any (· == '\x00') then .error .zeroInPath
  else if p.text = [] then .error .notFound
  else if maxPathBytes < byteLength p.text then .error .nameTooLong
  else .ok ()

/-- How the last piece of a path that is not empty names its target. -/
inductive Ending
  /-- A name, with the pieces before it, and whether slashes follow it. -/
  | name (before : List (List Char)) (name : List Char) (slashed : Bool)
  | dots (all : List (List Char))

def ending (p : Path) : Ending :=
  let pieces := Path.pieces p.text
  let trimmed := pieces.reverse.dropWhile (· == [])
  match trimmed with
  | [] => .dots []
  | last :: before =>
      if last = ['.'] ∨ last = ['.', '.'] then .dots pieces
      else .name before.reverse last (trimmed.length < pieces.length)

/-- The components that a walk has to follow. -/
def steps (pieces : List (List Char)) : List (List Char) := pieces.filter fun c => !Path.isVoid c

/-- Walks to the directory in which a name is to be found. -/
def walkDirectory (fs : FileSystem) (p : Path) (pieces : List (List Char)) :
    Except FileError Place := do
  let place ← fs.walk (fs.origin p) (steps pieces)
  if fs.isDirectory place then .ok place else .error .notADirectory

def makeDirectory (fs : FileSystem) (p : Path) : Except FileError FileSystem := do
  permitted p
  match ending p with
  | .dots all =>
      let _ ← fs.walkDirectory p all.dropLast
      .error .exists
  | .name before name _ =>
      let parent ← fs.walkDirectory p before
      if maxNameBytes < byteLength name then .error .nameTooLong
      else if (fs.node? (parent ++ [name])).isSome then .error .exists
      else .ok (fs.put (parent ++ [name]) .directory)

def leadsToDirectory (fs : FileSystem) (p : Path) : Bool :=
  match permitted p with
  | .error _ => false
  | .ok () =>
      match fs.walk (fs.origin p) p.components with
      | .ok place => fs.isDirectory place
      | .error _ => false

/-- What was wrong with an operation, if anything was, and the file system it left. -/
abbrev Attempt := Option FileError × FileSystem

def attempt (fs : FileSystem) : Except FileError FileSystem → Attempt
  | .ok after => (none, after)
  | .error e => (some e, fs)

/-- Makes a directory, to which a directory that is there already is as good. -/
def ensureDirectory (fs : FileSystem) (p : Path) : Attempt :=
  match fs.makeDirectory p with
  | .ok after => (none, after)
  | .error e => (if fs.leadsToDirectory p then none else some e, fs)

/-- Makes a directory and the missing ones above it; `fuel` bounds how far up it looks. What was
made before a failure stays. -/
def ensureDirectoriesWith (fs : FileSystem) : (fuel : Nat) → Path → Attempt
  | 0, _ => (none, fs)
  | fuel + 1, p =>
      match p.parent? with
      | none => (none, fs)
      | some parent =>
          match fs.makeDirectory p with
          | .error .notFound =>
              match fs.ensureDirectoriesWith fuel parent with
              | (none, fs) => fs.ensureDirectory p
              | refused => refused
          | _ => fs.ensureDirectory p

/-- A parent is shorter than its path, so the length of the path is fuel enough. -/
def ensureDirectories (fs : FileSystem) (p : Path) : Attempt :=
  fs.ensureDirectoriesWith p.text.length p

def read (fs : FileSystem) (p : Path) : Except FileError (List UInt8) := do
  permitted p
  match ending p with
  | .dots _ => .error .isADirectory
  | .name before name slashed =>
      let parent ← fs.walkDirectory p before
      if maxNameBytes < byteLength name then .error .nameTooLong
      else
        match fs.node? (parent ++ [name]) with
        | none => .error .notFound
        | some .directory => .error .isADirectory
        | some (.file bytes _) => if slashed then .error .notADirectory else .ok bytes

def write (fs : FileSystem) (p : Path) (bytes : List UInt8) : Except FileError FileSystem := do
  permitted p
  match ending p with
  | .dots all =>
      let _ ← fs.walkDirectory p all.dropLast
      let _ ← fs.walk (fs.origin p) (steps all)
      .error .isADirectory
  | .name before name slashed =>
      let parent ← fs.walkDirectory p before
      if slashed then .error .isADirectory
      else if maxNameBytes < byteLength name then .error .nameTooLong
      else if fs.isDirectory (parent ++ [name]) then .error .isADirectory
      else .ok { fs.put (parent ++ [name]) (.file bytes fs.clock) with clock := fs.clock + 1 }

/-- Writes a file unless it holds the very same already. -/
def writeIfChanged (fs : FileSystem) (p : Path) (bytes : List UInt8) : Attempt :=
  match fs.read p with
  | .ok old => if old = bytes then (none, fs) else fs.attempt (fs.write p bytes)
  | .error _ => fs.attempt (fs.write p bytes)

end FileSystem

end Wiring

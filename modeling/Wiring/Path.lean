/-!
Slash-separated paths as text. A path is a lead, the root or a first dot, and a body; empty and dot
components of the body say nothing, but they stay in the text around them.
-/
namespace Wiring

structure Path where
  text : List Char
deriving DecidableEq, Repr

namespace Path

def ofString (s : String) : Path := ⟨s.toList⟩

def toString (p : Path) : String := String.ofList p.text

instance : ToString Path := ⟨toString⟩

def isAbsolute (p : Path) : Bool := p.text.head? == some '/'

/-- The pieces of a text between slashes, one more than there are slashes. -/
def pieces : List Char → List (List Char)
  | [] => [[]]
  | c :: rest =>
      if c = '/' then [] :: pieces rest
      else
        match pieces rest with
        | [] => [[c]]
        | piece :: more => (c :: piece) :: more

def joinPieces : List (List Char) → List Char
  | [] => []
  | [piece] => piece
  | piece :: more => piece ++ '/' :: joinPieces more

/-- The root, or a dot that is the whole first component, and what follows it. -/
def split (p : Path) : List Char × List Char :=
  match p.text with
  | '/' :: body => (['/'], body)
  | ['.'] => (['.'], [])
  | '.' :: '/' :: body => (['.'], '/' :: body)
  | body => ([], body)

/-- Whether a piece of the body names nothing. -/
def isVoid (piece : List Char) : Bool := piece == [] || piece == ['.']

def dropVoidEnd (body : List (List Char)) : List (List Char) :=
  (body.reverse.dropWhile isVoid).reverse

/-- The components that lead somewhere, `..` among them. -/
def components (p : Path) : List (List Char) := (pieces p.split.2).filter fun c => !isVoid c

def fileName? (p : Path) : Option (List Char) :=
  p.components.getLast?.filter fun c => c != ['.', '.']

/-- The path of the directory that the last component is in. An absolute path with no component,
and an empty one, have none. -/
def parent? (p : Path) : Option Path :=
  let (lead, body) := p.split
  match (dropVoidEnd (pieces body)).reverse with
  | [] => if lead = ['.'] then some ⟨[]⟩ else none
  | _ :: before => some ⟨lead ++ joinPieces (dropVoidEnd before.reverse)⟩

/-- An absolute path replaces the one it is joined to. -/
def join (p q : Path) : Path :=
  if q.isAbsolute then q
  else if p.text = [] ∨ p.text.getLast? = some '/' then ⟨p.text ++ q.text⟩
  else ⟨p.text ++ '/' :: q.text⟩

/-- Puts `name` in the place of the file name, or after the path where there is none. -/
def withFileName (p name : Path) : Path :=
  if p.fileName?.isSome then ((p.parent?).getD ⟨[]⟩).join name else p.join name

/-- A name without its extension. A dot in front starts none. -/
def stem (name : List Char) : List Char :=
  match (name.reverse.dropWhile (· != '.')).tail.reverse with
  | [] => name
  | before => before

def fileStem? (p : Path) : Option (List Char) := p.fileName?.map stem

end Path

end Wiring

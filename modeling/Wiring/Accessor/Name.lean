import Wiring.Text.Case

/-!
Names of accessor functions: the name of the class in snake case, and escaped where the result is a
keyword.
-/
namespace Wiring.Accessor

def keywords : List String :=
  ["as", "async", "await", "break", "const", "continue", "dyn", "else", "enum", "extern", "false",
    "fn", "for", "if", "impl", "in", "let", "loop", "match", "mod", "move", "mut", "pub", "ref",
    "return", "static", "struct", "trait", "true", "type", "unsafe", "use", "where", "while"]

/-- Keywords that cannot be escaped in the usual way. -/
def reservedPaths : List String := ["crate", "self", "super"]

/-- Whether a word begins at the upper-case character between `before` and `after`. -/
def startsWord (before : Char) (after : Option Char) : Bool :=
  Text.isLower before || before.isDigit || (Text.isUpper before && after.any Text.isLower)

/-- The snake case of a text that follows the character `before`. -/
def snakeFrom : (before : Option Char) → List Char → List Char
  | _, [] => []
  | before, c :: rest =>
      let gap := Text.isUpper c && before.any fun b => startsWord b rest.head?
      (if gap then ['_'] else []) ++ Text.toLower c ++ snakeFrom (some c) rest

def snakeCase (name : String) : String := String.ofList (snakeFrom none name.toList)

/-- Makes a name out of a word that may be a keyword. -/
def escapeKeyword (word : String) : String :=
  if word ∈ keywords then "r#" ++ word
  else if word ∈ reservedPaths then word ++ "_"
  else word

def functionName (name : String) : String := escapeKeyword (snakeCase name)

end Wiring.Accessor

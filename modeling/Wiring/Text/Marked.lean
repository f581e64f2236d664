import Wiring.Text.Lines

/-!
Text that remembers which of its characters were given from outside and which belong to a fixed
form.
-/
namespace Wiring.Text

inductive Origin
  | fixed
  | given
deriving DecidableEq, Repr

structure Glyph where
  char : Char
  origin : Origin
deriving DecidableEq, Repr

abbrev Marked := List Glyph

namespace Marked

def fixed (s : String) : Marked := s.toList.map (⟨·, .fixed⟩)

def given (s : String) : Marked := s.toList.map (⟨·, .given⟩)

def chars (t : Marked) : List Char := t.map Glyph.char

def toString (t : Marked) : String := String.ofList t.chars

/-- Puts `levels` steps of four blanks before each line, and a line feed after it. -/
def indent (levels : Nat) (t : Marked) : Marked :=
  (lines Glyph.char t).flatMap fun line =>
    fixed (String.ofList (List.replicate (4 * levels) ' ')) ++ line ++ fixed "\n"

end Marked

end Wiring.Text

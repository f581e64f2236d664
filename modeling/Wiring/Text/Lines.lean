/-!
Lines of a text whose characters may carry further marks. A line ends at a line feed, together with
a carriage return right before it; a text that ends in a line feed has no line after that.
-/
namespace Wiring.Text

variable {α : Type}

/-- A line without the carriage return at its end. -/
def dropReturn (char : α → Char) (line : List α) : List α :=
  match line.getLast? with
  | some a => if char a = '\r' then line.dropLast else line
  | none => line

/-- The lines of `text`, the first of them beginning with the reverse of `begun`. -/
def linesFrom (char : α → Char) (begun : List α) : List α → List (List α)
  | [] => if begun.isEmpty then [] else [begun.reverse]
  | a :: rest =>
      if char a = '\n' then dropReturn char begun.reverse :: linesFrom char [] rest
      else linesFrom char (a :: begun) rest

def lines (char : α → Char) (text : List α) : List (List α) := linesFrom char [] text

def splitAfterBreaks (text : List Char) : List (List Char) :=
  match text with
  | [] => []
  | c :: rest =>
      if c = '\n' then [c] :: splitAfterBreaks rest
      else
        match splitAfterBreaks rest with
        | [] => [[c]]
        | line :: more => (c :: line) :: more

end Wiring.Text

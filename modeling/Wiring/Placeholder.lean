import Wiring.Constructor
import Wiring.Text.Case
import Wiring.Text.Quoted

/-!
Expressions for parameters that the registry does not supply: the default that was declared, or a
literal that follows from the type. Texts may get a placeholder that their name suggests.
-/
namespace Wiring

/-- Parts of names and the texts they suggest; the first part that a name has decides. -/
def nameHints : List (String × String) :=
  [("api", "your-api-key"), ("secret", "your-secret"), ("url", "https://example.com"),
    ("connection", "postgres://localhost:5432/app"), ("token", "your-token"), ("id", "default-id")]

def hasPart (part : List Char) : List Char → Bool
  | [] => part.isEmpty
  | c :: rest => part.isPrefixOf (c :: rest) || hasPart part rest

/-- The text that a name suggests, whatever its case. -/
def placeholder? (name : String) : Option String :=
  let lowered := (Text.lowerText name).toList
  (nameHints.find? fun hint => hasPart hint.1.toList lowered).map Prod.snd

def stringLiteral (text : String) : String := "String::from(" ++ Text.quote text ++ ")"

def TypeRef.literal : TypeRef → String
  | .text => stringLiteral "placeholder"
  | .uri => stringLiteral "https://example.com"
  | .pattern => stringLiteral ".*"
  | .integer => "0"
  | .float => "0.0"
  | .boolean => "false"
  | .sequence _ => "Vec::new()"
  | .mapping _ _ => "::std::collections::HashMap::new()"
  | .set _ => "::std::collections::HashSet::new()"
  | .duration => "::std::time::Duration::ZERO"
  | .timestamp => "::std::time::SystemTime::UNIX_EPOCH"
  | .dynamic => "Box::new(()) as " ++ TypeRef.dynamic.spelling
  | .void => "()"
  | .optional _ | .null => "None"
  | .generic _ | .named _ => "Default::default()"

def Parameter.synthesized (p : Parameter) (heuristics : Bool) : String :=
  match if heuristics && p.required && p.type.isStringLike then placeholder? p.name else none with
  | some text => stringLiteral text
  | none => p.type.literal

def Parameter.valueText (p : Parameter) (heuristics : Bool) : String :=
  p.default.getD (p.synthesized heuristics)

end Wiring

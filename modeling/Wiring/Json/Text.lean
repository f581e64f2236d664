import Wiring.Json.Token

/-!
Reading and writing whole documents. Writing lays out the tokens of a document; reading takes them
up again on a stack of the arrays and objects that are still open.
-/
namespace Wiring.Json

mutual

def tokens : Json → List Token → List Token
  | .null, rest => .null :: rest
  | .bool b, rest => .bool b :: rest
  | .number n, rest => .number n :: rest
  | .text t, rest => .text t :: rest
  | .array [], rest => .openArray :: .closeArray :: rest
  | .array (d :: items), rest => .openArray :: d.tokens (tokensOfItems items rest)
  | .object [], rest => .openObject :: .closeObject :: rest
  | .object (m :: members), rest =>
      .openObject :: .text m.1 :: .colon :: m.2.tokens (tokensOfMembers members rest)

/-- The items of an array after the first, and its end. -/
def tokensOfItems : List Json → List Token → List Token
  | [], rest => .closeArray :: rest
  | d :: items, rest => .comma :: d.tokens (tokensOfItems items rest)

def tokensOfMembers : List (Text × Json) → List Token → List Token
  | [], rest => .closeObject :: rest
  | m :: members, rest =>
      .comma :: .text m.1 :: .colon :: m.2.tokens (tokensOfMembers members rest)

end

def render (d : Json) : String := String.ofList ((d.tokens []).flatMap Token.spell)

/-- An array or object that is still open, with what it holds so far, the latest first. In an
object a name waits for its value. -/
inductive Frame
  | items (items : List Json)
  | member (members : List (Text × Json)) (name : Text)

inductive Expected
  | value
  | item
  | name
  /-- A name of an object after the members read so far. -/
  | nextName (members : List (Text × Json))
  /-- The colon after a name. -/
  | colon (members : List (Text × Json)) (name : Text)
  | afterValue (value : Json)

def Token.scalar? : Token → Option Json
  | .null => some .null
  | .bool b => some (.bool b)
  | .number n => some (.number n)
  | .text t => some (.text t)
  | _ => none

/-- What is expected after a token that starts a value, with the frames open then. -/
def startValue (frames : List Frame) : Token → Option (Expected × List Frame)
  | .openArray => some (.item, frames)
  | .openObject => some (.name, frames)
  | token => token.scalar?.map fun d => (.afterValue d, frames)

def accept : Expected → List Frame → Token → Option (Expected × List Frame)
  | .value, frames, token => startValue frames token
  | .item, frames, .closeArray => some (.afterValue (.array []), frames)
  | .item, frames, token => startValue (.items [] :: frames) token
  | .name, frames, .closeObject => some (.afterValue (.object []), frames)
  | .name, frames, .text name => some (.colon [] name, frames)
  | .nextName members, frames, .text name => some (.colon members name, frames)
  | .colon members name, frames, .colon => some (.value, .member members name :: frames)
  | .afterValue d, .items items :: frames, .comma => some (.value, .items (d :: items) :: frames)
  | .afterValue d, .items items :: frames, .closeArray =>
      some (.afterValue (.array (d :: items).reverse), frames)
  | .afterValue d, .member members name :: frames, .comma =>
      some (.nextName ((name, d) :: members), frames)
  | .afterValue d, .member members name :: frames, .closeObject =>
      some (.afterValue (.object ((name, d) :: members).reverse), frames)
  | _, _, _ => none

def assemble : Expected → List Frame → List Token → Option Json
  | .afterValue d, [], [] => some d
  | _, _, [] => none
  | expected, frames, token :: rest => do
      let (expected, frames) ← accept expected frames token
      assemble expected frames rest

/-- The document that a text is, where it is one and nothing more. -/
def parse? (text : String) : Option Json := do
  assemble .value [] (← Token.scan text.toList)

end Wiring.Json

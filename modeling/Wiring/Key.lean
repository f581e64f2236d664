/-!
Service keys. A key is what tells a type apart from all others together with the name of the type,
which messages and the resolution trail use. Two different keys may bear one name.
-/
namespace Wiring

structure Key where
  /-- What no two types have in common. -/
  id : String
  name : String
deriving DecidableEq, Hashable, Repr

namespace Key

instance : ToString Key := ⟨name⟩

/-- What stands before the first `::`. -/
def beforeSeparator : List Char → List Char
  | ':' :: ':' :: _ => []
  | c :: rest => c :: beforeSeparator rest
  | [] => []

/-- The last path segment of the name, read up to the first `<`. -/
def shortName (k : Key) : String :=
  String.ofList (beforeSeparator (k.name.toList.takeWhile (· != '<')).reverse).reverse

end Key

end Wiring

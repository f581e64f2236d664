import Wiring.Accessor.Argument
import Wiring.Accessor.Name

/-!
The text of an accessor: a function that registers the class with a producer, and the
implementation through which dependants reach it by type. The producer is the constructor call,
wrapped into a result.
-/
namespace Wiring.Accessor

open Text (Marked)
open Text.Marked (fixed given indent)

/-- What the text of an accessor is made from. -/
structure Subject where
  className : String
  policy : Policy
  constructor : Constructor
  arguments : List Argument
  runtimeCrate : String

namespace Subject

def function (s : Subject) : String := functionName s.className

def looked (s : Subject) : List String := s.arguments.filterMap fun a => a.source.looked?

def inCrate (s : Subject) (item : String) : Marked :=
  given s.runtimeCrate ++ fixed ("::" ++ item)

/-- Removes `::` from the front as often as it stands there. -/
def dropColons : List Char → List Char
  | ':' :: ':' :: rest => dropColons rest
  | cs => cs

def crateName (s : Subject) : String := String.ofList (dropColons s.runtimeCrate.toList)

def functionCall (s : Subject) (name : String) : Marked :=
  let head := given s.className ++ fixed "::" ++ given name
  match s.arguments.filterMap fun a => a.source.text? with
  | [] => head ++ fixed "()"
  | passed =>
      head ++ fixed "(\n" ++ (passed.flatMap fun expr => fixed "    " ++ expr ++ fixed ",\n")
        ++ fixed ")"

def literalField (a : Argument) : Marked :=
  match a.source.text? with
  | some expr => fixed "    " ++ given a.name ++ fixed ": " ++ expr ++ fixed ",\n"
  | none => []

def literalCall (s : Subject) : Marked :=
  given s.className ++ fixed " \x7b\n" ++ s.arguments.flatMap literalField
    ++ (if s.arguments.any fun a => a.source.text?.isNone then
        fixed "    ..Default::default()\n" else [])
    ++ fixed "\x7d"

def call (s : Subject) : Marked :=
  match s.constructor.style with
  | .function name => s.functionCall name
  | .literal => s.literalCall

def body (s : Subject) : Marked :=
  let call := s.call ++ (if s.constructor.isAsync then fixed ".await" else [])
  if s.constructor.isFallible then
    call ++ fixed ".map_err(" ++ s.inCrate "DiError::producer" ++ fixed ")"
  else if s.policy.isAsync then
    fixed "Ok::<_, " ++ s.inCrate "DiError" ++ fixed ">(" ++ call ++ fixed ")"
  else fixed "Ok(" ++ call ++ fixed ")"

def policyPath (s : Subject) : Marked := s.inCrate ("RegistrationPolicy::" ++ s.policy.name)

/-- The name under which the producer sees the registry, if it looks anything up. -/
def binder (s : Subject) : Marked := fixed (if s.looked.isEmpty then "_" else "registry")

def heading (s : Subject) : Marked :=
  fixed "/// Accessor for `" ++ given s.className ++ fixed ("` (" ++ s.policy.name ++ ").\n")

def signature (s : Subject) (type : Marked) : Marked :=
  fixed "(registry: &" ++ s.inCrate "Registry" ++ fixed ") -> " ++ s.inCrate "DiResult"
    ++ fixed "<::std::sync::Arc<" ++ type ++ fixed ">> \x7b\n"

def policyConstant (s : Subject) : Marked :=
  fixed "    const POLICY: " ++ s.inCrate "RegistrationPolicy" ++ fixed " = " ++ s.policyPath
    ++ fixed ";\n\n"

def syncFunction (s : Subject) : Marked :=
  fixed "pub fn " ++ given s.function ++ s.signature (given s.className)
    ++ fixed "    registry.get_or_register(" ++ s.policyPath ++ fixed ", |" ++ s.binder
    ++ fixed ": &" ++ s.inCrate "Registry" ++ fixed "| \x7b\n" ++ indent 2 s.body
    ++ fixed "    \x7d)\n\x7d\n\n"

def syncImplementation (s : Subject) : Marked :=
  fixed "impl " ++ s.inCrate "Autowired" ++ fixed " for " ++ given s.className ++ fixed " \x7b\n"
    ++ s.policyConstant ++ fixed "    fn autowire" ++ s.signature (fixed "Self")
    ++ fixed "        " ++ given s.function ++ fixed "(registry)\n    \x7d\n\x7d\n"

def asyncFunction (s : Subject) : Marked :=
  fixed "pub async fn " ++ given s.function ++ s.signature (given s.className)
    ++ fixed "    registry\n        .get_or_register_async(" ++ s.policyPath ++ fixed ", |"
    ++ s.binder ++ fixed ": " ++ s.inCrate "Registry" ++ fixed "| async move \x7b\n"
    ++ indent 3 s.body ++ fixed "        \x7d)\n        .await\n\x7d\n\n"

def asyncImplementation (s : Subject) : Marked :=
  fixed "#[" ++ given s.crateName ++ fixed "::async_trait]\nimpl " ++ s.inCrate "AutowiredAsync"
    ++ fixed " for " ++ given s.className ++ fixed " \x7b\n" ++ s.policyConstant
    ++ fixed "    async fn autowire_async" ++ s.signature (fixed "Self") ++ fixed "        "
    ++ given s.function ++ fixed "(registry).await\n    \x7d\n\x7d\n"

def text (s : Subject) : Marked :=
  s.heading ++
    if s.policy.isAsync then s.asyncFunction ++ s.asyncImplementation
    else s.syncFunction ++ s.syncImplementation

end Subject

end Wiring.Accessor

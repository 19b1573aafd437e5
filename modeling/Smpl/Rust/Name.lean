import Smpl.Diagnostic.Basic

namespace Smpl.Rust

/-- The words that Rust accepts as identifiers only in raw form. -/
def keywords : List String :=
  ["as", "async", "await", "dyn", "enum", "extern", "for", "impl", "in", "loop", "match", "move", "mut",
    "pub", "ref", "static", "const", "trait", "unsafe", "where", "abstract", "become", "box", "do",
    "final", "macro", "override", "priv", "typeof", "unsized", "virtual", "yield", "try", "gen"]

/-- The words that are no Rust identifiers even in raw form. -/
def unspellable : List String :=
  ["self", "Self", "super", "crate", "_"]

/-- The names that generated text takes from Rust's own prelude. -/
def reserved : List String :=
  ["Option", "Some", "None", "String", "Clone", "PartialEq", "Debug", "i64", "f64"]

/-- Spells a name as a Rust identifier. -/
def identifier (name : String) : String :=
  if keywords.contains name then "r#" ++ name else name

/-- The name of the backend in diagnostics. -/
def backendName : String := "rust"

/-- Refuses a construct that has no Rust text. -/
def cannotLower {α : Type} (construct : Construct) (loc : Option Location) (hint : Option String) :
    Except Failure α :=
  .error (.diagnostic { cause := .cannotLower backendName construct hint, location := loc })

/-- Requires a name that Rust can spell. -/
def checkSpelling (kind : String) (name : String) (loc : Location) : Except Failure Unit :=
  if unspellable.contains name then
    cannotLower (.named kind name) (some loc)
      (some ("'" ++ name ++ "' cannot be a Rust identifier; rename it"))
  else .ok ()

/-- Requires a name that Rust can spell and that hides nothing of Rust's own prelude. -/
def checkName (kind : String) (name : String) (loc : Location) : Except Failure Unit := do
  checkSpelling kind name loc
  if reserved.contains name then
    cannotLower (.named kind name) (some loc)
      (some ("'" ++ name ++ "' is reserved by the Rust prelude; rename it"))

/-- How a character stands in a Rust string literal. -/
def escape (c : Char) : List Char :=
  match c with
  | '\\' => ['\\', '\\']
  | '"' => ['\\', '"']
  | '\n' => ['\\', 'n']
  | '\r' => ['\\', 'r']
  | '\t' => ['\\', 't']
  | '\x00' => ['\\', '0']
  | c =>
    if c.toNat < 0x20 || c.toNat = 0x7f then
      '\\' :: 'u' :: '\x7b' :: Text.hexadecimal 1 c.toNat ++ ['\x7d']
    else [c]

/-- A text as a Rust string literal. -/
def stringLiteral (value : String) : String :=
  String.ofList ('"' :: value.toList.flatMap escape ++ ['"'])

end Smpl.Rust

import Smpl.Diagnostic.Scalar
import Smpl.Location

namespace Smpl

/-- The broad kinds of diagnostic. A diagnostic with a free text has one of these and no more. -/
inductive Category
  | compile
  | grammar
  | lexical
  | parsing
  | modules
  | semantic
  | controlFlow
  | backend
deriving DecidableEq, Repr

/-- What a name turned out to stand for. -/
inductive Meaning
  | structType
  | opaqueType
  | builtinFunction
  | function
  | moduleItem
  | module
deriving DecidableEq, Repr

def Meaning.text : Meaning → String
  | .structType => "struct"
  | .opaqueType => "opaque type"
  | .builtinFunction => "builtin function"
  | .function => "function"
  | .moduleItem => "module item"
  | .module => "module"

/-- What a name was needed as. -/
inductive Role
  | type
  | value
  | localBinding
  | struct
deriving DecidableEq, Repr

def Role.text : Role → String
  | .type => "type"
  | .value => "value"
  | .localBinding => "local binding"
  | .struct => "struct"

/-- What disagrees when a type is not the one that its context requires. Operators are given by
    their spelling. -/
inductive Mismatch
  | entryPoint
  | wrongMeaning (name : String) (meaning : Meaning) (role : Role)
  | notStruct (name : String)
  | opaqueInit (name : String)
  | initializer (name : String)
  | assignment (target : String)
  | condition
  | missingReturnValue (function : String)
  | extraReturnValue (function : String)
  | returnValue (function : String)
  | notFunction (name : String)
  | notCallable (name : String) (meaning : Meaning)
  | argument (index : Nat) (function : String)
  | fieldValue (field struct : String)
  | fieldOfNonStruct (field type : String)
  | negation
  | logicalNot
  | dereference
  | logicalOperand (operator : String)
  | incomparable (operator : String)
  | notNumeric (operator : String)
  | operandsDiffer (operator : String)
  | other (text : String)
deriving DecidableEq, Repr

def Mismatch.text : Mismatch → String
  | .entryPoint => "entry point 'main' must take no parameters and return nothing"
  | .wrongMeaning name meaning role => "'" ++ name ++ "' is a " ++ meaning.text ++ ", not a " ++ role.text
  | .notStruct name => "'" ++ name ++ "' is not a struct"
  | .opaqueInit name => "cannot initialize opaque type '" ++ name ++ "'"
  | .initializer name => "initializer of '" ++ name ++ "' has the wrong type"
  | .assignment target => "cannot assign to '" ++ target ++ "'"
  | .condition => "condition must be a bool"
  | .missingReturnValue f => "'return' without a value in function '" ++ f ++ "'"
  | .extraReturnValue f => "function '" ++ f ++ "' does not return a value"
  | .returnValue f => "wrong return type in function '" ++ f ++ "'"
  | .notFunction name => "'" ++ name ++ "' is not a function"
  | .notCallable name .structType =>
    "'" ++ name ++ "' is a struct and cannot be called; use 'init " ++ name ++ " \x7b ... \x7d'"
  | .notCallable name meaning => "'" ++ name ++ "' is a " ++ meaning.text ++ " and cannot be called"
  | .argument index f => "argument " ++ toString index ++ " of '" ++ f ++ "' has the wrong type"
  | .fieldValue field struct => "field '" ++ field ++ "' of '" ++ struct ++ "' has the wrong type"
  | .fieldOfNonStruct field type =>
    "cannot access field '" ++ field ++ "' of non-struct type '" ++ type ++ "'"
  | .negation => "'-' needs a numeric operand"
  | .logicalNot => "'!' needs a bool operand"
  | .dereference => "'*' needs a reference operand"
  | .logicalOperand op => "'" ++ op ++ "' needs bool operands"
  | .incomparable op => "'" ++ op ++ "' can only compare int, float, bool or string values"
  | .notNumeric op => "'" ++ op ++ "' needs numeric operands"
  | .operandsDiffer op => "operands of '" ++ op ++ "' differ in type"
  | .other text => text

/-- A construct that a backend has no output for. -/
inductive Construct
  | named (kind name : String)
  | recursiveStruct (cycle : List String)
  | opaqueType (type : String)
  | builtinFunction (name : String)
  | builtinValue (name : String)
  | other (text : String)
deriving DecidableEq, Repr

def Construct.text : Construct → String
  | .named kind name => kind ++ " named '" ++ name ++ "'"
  | .recursiveStruct cycle => "recursive struct " ++ " -> ".intercalate cycle
  | .opaqueType type => "opaque type '" ++ type ++ "'"
  | .builtinFunction name => "builtin function '" ++ name ++ "'"
  | .builtinValue name => "builtin function '" ++ name ++ "' used as a value"
  | .other text => text

/-- Why a program was refused. -/
inductive Cause
  | general (category : Category) (message : String) (hint : Option String)
  | unterminatedComment
  | unknownEscape (escaped : String)
  | floatOutOfRange (literal : String)
  | integerOutOfRange (literal : String)
  | unterminatedString
  | invalidCharacter (char : Char)
  | emptyArray
  | unexpectedToken (found : String) (expected : Option String)
  | missingToken (expected : String) (found : Option String)
  | unresolvedImport (name importer : String) (available : List String) (reason : Option String)
  | duplicateModule (name : String) (first : Option Location)
  | undefinedSymbol (name : String) (similar : List String) (kind : String)
  | ambiguousReference (name : String) (modules : List String)
  | typeMismatch (what : Mismatch) (expected found : Option String)
  | arityMismatch (name : String) (expected actual : Int) (what : String)
  | duplicateField (struct field : String)
  | missingField (struct : String) (missing : List String)
  | unknownField (struct field : String) (fields : List String)
  | duplicateDeclaration (name : String) (first : Option Location) (hint : Option String)
  | missingReturn (function type : String)
  | loopControl (keyword : String)
  | multipleEntryPoints (modules : List String)
  | unknownBackend (id : Scalar) (available : List Scalar)
  | cannotLower (backend : String) (construct : Construct) (hint : Option String)
deriving DecidableEq, Repr

/-- Names in single quotes, separated by commas. -/
def quotedList (names : List String) : String :=
  ", ".intercalate (names.map fun name => "'" ++ name ++ "'")

/-- Names in code point order. -/
def sortedNames (names : List String) : List String :=
  names.mergeSort fun a b => a < b || a == b

/-- Upper-case hexadecimal with at least two digits. -/
def codePointText (c : Char) : String :=
  String.ofList ((Text.hexadecimal 2 c.toNat).map Char.toUpper)

namespace Cause

/-- The broad kind of a cause. -/
def category : Cause → Category
  | .general category _ _ => category
  | .unterminatedComment | .unknownEscape _ | .floatOutOfRange _ | .integerOutOfRange _
  | .unterminatedString | .invalidCharacter _ => .lexical
  | .emptyArray | .unexpectedToken _ _ | .missingToken _ _ => .parsing
  | .unresolvedImport _ _ _ _ | .duplicateModule _ _ => .modules
  | .undefinedSymbol _ _ _ | .ambiguousReference _ _ | .typeMismatch _ _ _ | .arityMismatch _ _ _ _
  | .duplicateField _ _ | .missingField _ _ | .unknownField _ _ _ | .duplicateDeclaration _ _ _
  | .multipleEntryPoints _ => .semantic
  | .missingReturn _ _ | .loopControl _ => .controlFlow
  | .unknownBackend _ _ | .cannotLower _ _ _ => .backend

def message : Cause → String
  | .general _ message _ => message
  | .unterminatedComment => "unterminated multi-line comment"
  | .unknownEscape escaped => "unknown escape sequence '\\" ++ escaped ++ "'"
  | .floatOutOfRange literal => "float literal " ++ literal ++ " is out of range"
  | .integerOutOfRange literal => "integer literal " ++ literal ++ " is out of range"
  | .unterminatedString => "unterminated string literal"
  | .invalidCharacter c => "invalid character '" ++ String.singleton c ++ "' (0x" ++ codePointText c ++ ")"
  | .emptyArray => "array length must be greater than zero"
  | .unexpectedToken found _ => "unexpected token '" ++ found ++ "'"
  | .missingToken expected none => "expected " ++ expected
  | .missingToken expected (some found) => "expected " ++ expected ++ ", found '" ++ found ++ "'"
  | .unresolvedImport name importer _ reason =>
    match reason with
    | some text =>
      if text = "" then "module '" ++ importer ++ "' uses unknown module '" ++ name ++ "'" else text
    | none => "module '" ++ importer ++ "' uses unknown module '" ++ name ++ "'"
  | .duplicateModule name _ => "duplicate module '" ++ name ++ "'"
  | .undefinedSymbol name _ kind => "undefined " ++ kind ++ " '" ++ name ++ "'"
  | .ambiguousReference name _ => "'" ++ name ++ "' is ambiguous"
  | .typeMismatch what _ _ => what.text
  | .arityMismatch name expected actual what =>
    "'" ++ name ++ "' expects " ++ toString expected ++ " " ++ what ++ (if expected = 1 then "" else "s") ++
      ", got " ++ toString actual
  | .duplicateField struct field => "field '" ++ field ++ "' of '" ++ struct ++ "' given more than once"
  | .missingField struct missing =>
    "missing " ++ (if missing.length = 1 then "field" else "fields") ++ " " ++ quotedList missing ++
      " in initializer of '" ++ struct ++ "'"
  | .unknownField struct field _ => "struct '" ++ struct ++ "' has no field '" ++ field ++ "'"
  | .duplicateDeclaration name _ _ => "redeclaration of '" ++ name ++ "'"
  | .missingReturn f _ => "function '" ++ f ++ "' may finish without returning a value"
  | .loopControl keyword => "'" ++ keyword ++ "' outside of a loop"
  | .multipleEntryPoints modules => "entry point 'main' defined in modules " ++ quotedList modules
  | .unknownBackend id _ => "unknown backend " ++ id.display
  | .cannotLower backend construct _ => backend ++ " backend cannot lower " ++ construct.text

/-- The advice that goes with a cause. An empty advice is kept but never shown. -/
def hint : Cause → Option String
  | .general _ _ hint => hint
  | .unterminatedComment => some "add closing */ to terminate the comment"
  | .unknownEscape _ => some "supported escapes: \\n \\r \\t \\\\ \\\" \\0"
  | .integerOutOfRange _ => some "the largest int is 9223372036854775807"
  | .unterminatedString => some "add closing '\"' to complete the string"
  | .unexpectedToken _ (some expected) => if expected = "" then none else some ("expected " ++ expected)
  | .unresolvedImport _ _ available _ =>
    if available.isEmpty then none
    else some ("available modules: " ++ ", ".intercalate (sortedNames available))
  | .duplicateModule name (some first) =>
    some ("module '" ++ name ++ "' was first declared at " ++ first.text)
  | .undefinedSymbol _ similar _ =>
    if similar.isEmpty then none else some ("did you mean " ++ quotedList (similar.take 3) ++ "?")
  | .ambiguousReference name modules =>
    some ("qualify it as one of " ++ quotedList (modules.map (· ++ "::" ++ name)))
  | .typeMismatch _ (some expected) (some found) =>
    some ("expected '" ++ expected ++ "', found '" ++ found ++ "'")
  | .unknownField struct _ fields =>
    if fields.isEmpty then none else some ("'" ++ struct ++ "' has fields: " ++ ", ".intercalate fields)
  | .duplicateDeclaration _ _ (some hint) => some hint
  | .duplicateDeclaration name (some first) none =>
    some ("'" ++ name ++ "' was first declared at " ++ first.text)
  | .missingReturn _ type => some ("add a 'return' of type '" ++ type ++ "' on every path")
  | .unknownBackend _ available =>
    if available.isEmpty then none
    else some ("available backends: " ++ ", ".intercalate (available.map Scalar.shown))
  | .cannotLower _ _ hint => hint
  | _ => none

end Cause

end Smpl

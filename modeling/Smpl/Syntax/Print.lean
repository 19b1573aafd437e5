import Smpl.Diagnostic.Basic
import Smpl.Double.Text
import Smpl.Syntax.Tree

namespace Smpl

namespace Text

/-- One character of a string literal. -/
def quotedChar : Char → List Char
  | '\\' => ['\\', '\\']
  | '"' => ['\\', '"']
  | '\n' => ['\\', 'n']
  | '\r' => ['\\', 'r']
  | '\t' => ['\\', 't']
  | '\x00' => ['\\', '0']
  | c => [c]

/-- The string literal that denotes a text. -/
def quoted (text : String) : String :=
  String.ofList ('"' :: text.toList.flatMap quotedChar ++ ['"'])

end Text

/-- One level of indentation. -/
def indentation : String := "    "

def indented (lines : List String) : List String :=
  lines.map (indentation ++ ·)

/-- Texts separated by commas. -/
def commaSeparated (texts : List String) : String :=
  ", ".intercalate texts

/-- A list of types after a name, or nothing if it is empty. -/
def typeListText (texts : List String) : String :=
  if texts.isEmpty then "" else "(type " ++ commaSeparated texts ++ ")"

mutual

/-- The canonical text of a written type. -/
def TypeExpr.print : TypeExpr → Except Failure String
  | .named _ path args => do
    let args ← printTypes args
    return path.text ++ typeListText args
  | .array _ element length => do
    let element ← element.print
    return "[" ++ element ++ "; " ++ toString length ++ "]"
  | .function _ params result => do
    let params ← printTypes params
    let result ← printResult result
    return "fn(" ++ commaSeparated params ++ ")" ++ result
  | .unknown node => .error (.defect (.unknownTypeExpr node))

def printTypes : List TypeExpr → Except Failure (List String)
  | [] => return []
  | type :: types => do
    let text ← type.print
    let texts ← printTypes types
    return text :: texts

/-- The canonical text of an arrow and a result type, empty if there is none. -/
def printResult : Option TypeExpr → Except Failure String
  | none => return ""
  | some type => do
    let text ← type.print
    return " -> " ++ text

end

def Literal.print : Literal → String
  | .integer value => toString value
  | .float value => value.literal
  | .bool value => if value then "true" else "false"
  | .string value => Text.quoted value

/-- A prefix operator before its operand. A blank keeps two equal operators apart. -/
def unaryText (op : UnaryOp) (operand : String) : String :=
  if op.spelling.toList.isPrefixOf operand.toList then op.spelling ++ " " ++ operand
  else op.spelling ++ operand

/-- A name with the fields below it. -/
def chainText (root : String) (fields : List String) : String :=
  ".".intercalate (root :: fields)

mutual

/-- The canonical text of an expression in a context that needs operators of at least the given
    precedence. Looser ones get parentheses. -/
def Expr.print (needed : Int) : Expr → Except Failure String
  | .binary _ op left right => do
    let left ← left.print op.precedence
    let right ← right.print (op.precedence + 1)
    let text := left ++ " " ++ op.spelling ++ " " ++ right
    return if op.precedence < needed then "(" ++ text ++ ")" else text
  | .unary _ op operand => do
    let operand ← operand.print UnaryOp.precedence
    return unaryText op operand
  | .paren _ inner => do
    let inner ← inner.print 0
    return "(" ++ inner ++ ")"
  | .literal _ value => return value.print
  | .binding _ path => return path.text
  | .field _ root fields => return chainText root fields
  | .call _ callee typeArgs args => do
    let typeArgs ← printTypes typeArgs
    let args ← printExprs args
    return callee.text ++ typeListText typeArgs ++ "(" ++ commaSeparated args ++ ")"
  | .init _ struct fields => do
    let fields ← printInits fields
    return if fields.isEmpty then "init " ++ struct.text ++ " \x7b\x7d"
      else "init " ++ struct.text ++ " \x7b " ++ commaSeparated fields ++ " \x7d"
  | .operatorless _ [operand] => do
    let _ ← operand.print UnaryOp.precedence
    .error (.defect (.missingPart "value"))
  | .operatorless _ _ => .error (.defect (.missingKey none))
  | .unknown node => .error (.defect (.unknownExpression node))

def printExprs : List Expr → Except Failure (List String)
  | [] => return []
  | expr :: exprs => do
    let text ← expr.print 0
    let texts ← printExprs exprs
    return text :: texts

def printInits : List (FieldInit Expr) → Except Failure (List String)
  | [] => return []
  | ⟨_, name, value⟩ :: inits => do
    let text ← value.print 0
    let texts ← printInits inits
    return (name ++ ": " ++ text) :: texts

end

mutual

/-- The canonical lines of a statement. An unknown one has none. -/
def Stmt.print : Stmt → Except Failure (List String)
  | .block body => do
    let lines ← printBlock body
    return "\x7b" :: lines ++ ["\x7d"]
  | .letBinding _ name type value => do
    let type ← type.print
    let value ← value.print 0
    return ["let " ++ name ++ ": " ++ type ++ " = " ++ value ++ ";"]
  | .assign _ target fields value => do
    let value ← value.print 0
    return [chainText target fields ++ " = " ++ value ++ ";"]
  | .ifChain _ branches otherwise => do
    let branches ← printBranches "if " branches
    let otherwise ← printElse otherwise
    return branches ++ otherwise ++ ["\x7d"]
  | .whileLoop _ condition body => do
    let condition ← condition.print 0
    let lines ← printBlock body
    return ("while " ++ condition ++ " \x7b") :: lines ++ ["\x7d"]
  | .returnValue _ none => return ["return;"]
  | .returnValue _ (some value) => do
    let value ← value.print 0
    return ["return " ++ value ++ ";"]
  | .breakLoop _ => return ["break;"]
  | .continueLoop _ => return ["continue;"]
  | .expression _ value => do
    let value ← value.print 0
    return [value ++ ";"]
  | .unknown .nothing => .error (.defect (.missingPart "statements"))
  | .unknown _ => return []

/-- The indented lines between the braces of a block. -/
def printBlock : Block Stmt → Except Failure (List String)
  | ⟨_, statements⟩ => do
    let lines ← printStmts statements
    return indented lines

def printStmts : List Stmt → Except Failure (List String)
  | [] => return []
  | stmt :: stmts => do
    let first ← stmt.print
    let others ← printStmts stmts
    return first ++ others

/-- The lines of the branches of a conditional without the last closing brace. -/
def printBranches (opening : String) : List (Branch Expr Stmt) → Except Failure (List String)
  | [] => return []
  | ⟨_, condition, body⟩ :: branches => do
    let condition ← condition.print 0
    let lines ← printBlock body
    let others ← printBranches "\x7d elif " branches
    return (opening ++ condition ++ " \x7b") :: lines ++ others

def printElse : Option (Block Stmt) → Except Failure (List String)
  | none => return []
  | some body => do
    let lines ← printBlock body
    return "\x7d else \x7b" :: lines

end

/-- The canonical text of a struct field or parameter. -/
def Member.print (member : Member TypeExpr) : Except Failure String := do
  let type ← member.type.print
  return member.name ++ ": " ++ type

/-- The canonical text of a function's header. -/
def Header.print (header : Header TypeExpr) : Except Failure String := do
  let params ← header.params.mapM Member.print
  let result ← printResult header.result
  return header.name ++ typeListText header.typeParams ++ "(" ++ commaSeparated params ++ ")" ++ result

/-- The canonical lines of an item. An unknown one has none. -/
def Item.print : Item → Except Failure (List String)
  | .use _ name => return ["use " ++ name ++ ";"]
  | .struct _ name [] => return ["struct " ++ name ++ " \x7b\x7d"]
  | .struct _ name fields => do
    let fields ← fields.mapM Member.print
    return ("struct " ++ name ++ " \x7b") :: indented (fields.map (· ++ ",")) ++ ["\x7d"]
  | .opaqueType _ name typeParams => return ["opaque " ++ name ++ typeListText typeParams ++ ";"]
  | .function _ header body => do
    let header ← header.print
    let lines ← printBlock body
    return ("fn " ++ header ++ " \x7b") :: lines ++ ["\x7d"]
  | .builtin _ header => do
    let header ← header.print
    return ["builtin fn " ++ header ++ ";"]
  | .other _ _ => return []

/-- The lines of paragraphs with a blank line between any two. -/
def paragraphs : List (List String) → List String
  | [] => []
  | [lines] => lines
  | lines :: others => lines ++ "" :: paragraphs others

/-- The canonical text of a module. -/
def Module.print (module_ : Module) : Except Failure String := do
  let items ← module_.items.mapM Item.print
  let name := module_.name.toList.map fun name => ["mod " ++ name ++ ";"]
  return "\n".intercalate (paragraphs (name ++ items)) ++ "\n"

end Smpl

/-
# What can be wrong with a script

Every cause of a diagnostic, from the characters of a script up to the meaning of its expressions,
and the wording of each.
-/
import Nss.ValueType
import Nss.Operator

namespace Nss

/-- The cause of a diagnostic. -/
inductive Problem where
  /-- Characters that begin no token. -/
  | unexpectedCharacter (text : String)
  | unterminatedComment
  | unterminatedString
  | unknownDirective (word : String)
  /-- A token, or one of several, that has to stand here does not. -/
  | expected (what : String)
  | expectedType (found : String)
  | unexpectedToken (text : String)
  | endInExpression
  | endInBlock
  | expressionTooDeep
  | statementTooDeep
  | invalidInteger (text : String)
  | integerTooLarge (text : String)
  | invalidFloat (text : String)
  | voidGlobal (name : String)
  | voidLocal
  | voidParameter
  /-- A function cannot take the name of a global variable. -/
  | declaredAsVariable (name : String)
  | conflictingFunction (name : String)
  | secondBody (name : String)
  | alreadyDeclared (name : String)
  | duplicateParameter (name : String)
  | declaredInScope (name : String)
  | undeclaredIdentifier (name : String)
  | undeclaredFunction (name : String)
  | argumentCount (name : String) (taken given : Nat)
  | typeMismatch (wanted found : ValueType)
  | conditionNotInt (found : ValueType)
  | voidReturnsValue
  | missingResult (type : ValueType)
  | unaryOperand (op : UnaryOp) (type : ValueType)
  | binaryOperands (op : BinaryOp) (left right : ValueType)
  | stringTooLong
  | cannotOpenInclude (path : String)
  | noEntryPoint
  /-- A problem found elsewhere, in the words of its finder. -/
  | reported (text : String)
deriving DecidableEq, Repr, Inhabited

/-- A text between double quotes. -/
def inQuotes (text : String) : String := "\"" ++ text ++ "\""

/-- The wording of a problem. -/
def Problem.message : Problem → String
  | unexpectedCharacter text => "unexpected character " ++ inQuotes text
  | unterminatedComment => "unterminated comment"
  | unterminatedString => "unterminated string literal"
  | unknownDirective word => "unknown preprocessor directive " ++ inQuotes ("#" ++ word)
  | expected what => "expected " ++ what
  | expectedType found => "expected type, found " ++ inQuotes found
  | unexpectedToken text => "unexpected " ++ inQuotes text ++ " in expression"
  | endInExpression => "unexpected end of file in expression"
  | endInBlock => "unexpected end of file, expected \"\x7d\""
  | expressionTooDeep => "expression too deeply nested"
  | statementTooDeep => "statement too deeply nested"
  | invalidInteger text => "invalid integer " ++ inQuotes text
  | integerTooLarge text => "integer constant " ++ inQuotes text ++ " is too large"
  | invalidFloat text => "invalid float " ++ inQuotes text
  | voidGlobal name => "variable " ++ inQuotes name ++ " cannot be declared void"
  | voidLocal => "variable cannot be declared void"
  | voidParameter => "parameter cannot be void"
  | declaredAsVariable name => inQuotes name ++ " is already declared as a variable"
  | conflictingFunction name => "conflicting declaration of function " ++ inQuotes name
  | secondBody name => "function " ++ inQuotes name ++ " already has a body"
  | alreadyDeclared name => inQuotes name ++ " is already declared"
  | duplicateParameter name => "duplicate parameter " ++ inQuotes name
  | declaredInScope name => inQuotes name ++ " is already declared in this scope"
  | undeclaredIdentifier name => "undeclared identifier " ++ inQuotes name
  | undeclaredFunction name => "undeclared function " ++ inQuotes name
  | argumentCount name taken given =>
    "function " ++ inQuotes name ++ " takes " ++ taken.repr ++ " argument(s) but " ++ given.repr
      ++ " were given"
  | typeMismatch wanted found =>
    "type mismatch: expected " ++ wanted.name ++ ", found " ++ found.name
  | conditionNotInt found => "condition must be an int, found " ++ found.name
  | voidReturnsValue => "a void function cannot return a value"
  | missingResult type => "function must return " ++ type.withArticle
  | unaryOperand op type =>
    "operator " ++ inQuotes op.sign ++ " cannot be applied to " ++ type.name
  | binaryOperands op left right =>
    "operator " ++ inQuotes op.sign ++ " cannot be applied to " ++ left.name ++ " and "
      ++ right.name
  | stringTooLong => "string constant is too long"
  | cannotOpenInclude path => "unable to open include file " ++ inQuotes path
  | noEntryPoint => "No \"main\" or \"StartingConditional\" found"
  | reported text => text

end Nss

import TriggerScript.Text.Span

/-!
Tokens.

A token has a kind, the range it was read from and its lexeme: the decoded text of a string, the
digits of a number, the spelling of anything else. What could not be read is an error token and has
no lexeme.
-/

namespace TriggerScript

inductive TokenKind where
  | identifier
  | integer
  | long
  | coordgrid
  | string
  | bool
  | concatBegin
  | concatEnd
  | ifWord
  | elseWord
  | whileWord
  | doWord
  | returnWord
  | caseWord
  | defaultWord
  | calcWord
  | nullWord
  | continueWord
  | breakWord
  | type
  | arrayType
  | define
  | switch
  | leftParen
  | rightParen
  | leftBracket
  | rightBracket
  | leftBrace
  | rightBrace
  | comma
  | tilde
  | atSign
  | dollar
  | caret
  | colon
  | semicolon
  | dot
  | hash
  | equals
  | notEquals
  | lessThan
  | greaterThan
  | lessThanOrEqual
  | greaterThanOrEqual
  | plus
  | minus
  | mul
  | div
  | mod
  | and
  | or
  | comment
  | error
  | eof
  deriving DecidableEq, Inhabited

def TokenKind.all : List TokenKind := [
  .identifier, .integer, .long, .coordgrid, .string, .bool, .concatBegin, .concatEnd, .ifWord,
  .elseWord, .whileWord, .doWord, .returnWord, .caseWord, .defaultWord, .calcWord, .nullWord,
  .continueWord, .breakWord, .type, .arrayType, .define, .switch, .leftParen, .rightParen,
  .leftBracket, .rightBracket, .leftBrace, .rightBrace, .comma, .tilde, .atSign, .dollar, .caret,
  .colon, .semicolon, .dot, .hash, .equals, .notEquals, .lessThan, .greaterThan,
  .lessThanOrEqual, .greaterThanOrEqual, .plus, .minus, .mul, .div, .mod, .and, .or, .comment,
  .error, .eof]

def TokenKind.name : TokenKind → String
  | identifier => "Identifier"
  | integer => "Integer"
  | long => "Long"
  | coordgrid => "Coordgrid"
  | string => "String"
  | bool => "Bool"
  | concatBegin => "ConcatBegin"
  | concatEnd => "ConcatEnd"
  | ifWord => "If"
  | elseWord => "Else"
  | whileWord => "While"
  | doWord => "Do"
  | returnWord => "Return"
  | caseWord => "Case"
  | defaultWord => "Default"
  | calcWord => "Calc"
  | nullWord => "Null"
  | continueWord => "Continue"
  | breakWord => "Break"
  | type => "Type"
  | arrayType => "ArrayType"
  | define => "Define"
  | switch => "Switch"
  | leftParen => "LParen"
  | rightParen => "RParen"
  | leftBracket => "LBracket"
  | rightBracket => "RBracket"
  | leftBrace => "LBrace"
  | rightBrace => "RBrace"
  | comma => "Comma"
  | tilde => "Tilde"
  | atSign => "At"
  | dollar => "Dollar"
  | caret => "Caret"
  | colon => "Colon"
  | semicolon => "Semicolon"
  | dot => "Dot"
  | hash => "Hash"
  | equals => "Equals"
  | notEquals => "NotEquals"
  | lessThan => "LessThan"
  | greaterThan => "GreaterThan"
  | lessThanOrEqual => "LessThanOrEqual"
  | greaterThanOrEqual => "GreaterThanOrEqual"
  | plus => "Plus"
  | minus => "Minus"
  | mul => "Mul"
  | div => "Div"
  | mod => "Mod"
  | and => "And"
  | or => "Or"
  | comment => "Comment"
  | error => "Error"
  | eof => "Eof"

structure Token where
  kind : TokenKind
  span : Span
  lexeme : Option String
  deriving DecidableEq, Inhabited

def Token.text (token : Token) : String := token.lexeme.getD ""

end TriggerScript

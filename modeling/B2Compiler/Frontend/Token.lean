import Mathlib.Data.List.Basic

/-!
# Tokens

What the lexer hands to the parser.
-/

namespace B2Compiler.Frontend

inductive Tok where
  | endOfFile | error
  | integerLiteral | longLiteral | floatLiteral | doubleLiteral | characterLiteral
  | stringLiteral | trueKeyword | falseKeyword | nullKeyword
  | identifier
  | abstractKeyword | assertKeyword | booleanKeyword | breakKeyword | byteKeyword | caseKeyword
  | catchKeyword | charKeyword | classKeyword | constKeyword | continueKeyword | defaultKeyword
  | doKeyword | doubleKeyword | elseKeyword | enumKeyword | extendsKeyword | finalKeyword
  | finallyKeyword | floatKeyword | forKeyword | gotoKeyword | ifKeyword | implementsKeyword
  | importKeyword | instanceOfKeyword | intKeyword | interfaceKeyword | longKeyword
  | nativeKeyword | newKeyword | packageKeyword | privateKeyword | protectedKeyword
  | publicKeyword | returnKeyword | shortKeyword | staticKeyword | strictFpKeyword
  | superKeyword | switchKeyword | synchronizedKeyword | thisKeyword | throwKeyword
  | throwsKeyword | transientKeyword | tryKeyword | voidKeyword | volatileKeyword
  | whileKeyword | underscoreKeyword
  | leftParen | rightParen | leftBrace | rightBrace | leftBracket | rightBracket | semicolon
  | comma | dot | ellipsis | at_ | colon | colonColon | arrow | question
  | amp | ampAmp | ampEqual | bar | barBar | barEqual | caret | caretEqual | plus | plusPlus
  | plusEqual | minus | minusMinus | minusEqual | star | starEqual | slash | slashEqual
  | percent | percentEqual | tilde | bang | bangEqual | equal | equalEqual | less | lessEqual
  | lessLess | lessLessEqual | greater | greaterEqual | greaterGreater | greaterGreaterEqual
  | greaterGreaterGreater | greaterGreaterGreaterEqual
  deriving DecidableEq, Repr

/-- A token with its raw range; a floating-point value is kept as its bits. -/
structure Token where
  kind : Tok := .endOfFile
  offset : Nat := 0
  length : Nat := 0
  text : List UInt8 := []
  intValue : Nat := 0
  floatValue : UInt64 := 0
  isTextBlock : Bool := false
  deriving DecidableEq

end B2Compiler.Frontend

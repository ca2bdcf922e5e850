import DocLint.Token.Basic

/-!
# Reserved words

The words that are keywords in any mix of upper and lower case ASCII letters.
-/

namespace DocLint.Token

/-- The reserved words, in lower case. -/
def reservedWords : List Text :=
  List.map String.toList
  ["abstract", "and", "as", "break", "case", "catch", "class", "clone", "const", "continue",
   "declare", "default", "do", "echo", "else", "elseif", "empty", "enddeclare", "endfor",
   "endforeach", "endif", "endswitch", "endwhile", "enum", "extends", "final", "finally", "fn",
   "for", "foreach", "function", "global", "goto", "if", "implements", "include", "include_once",
   "instanceof", "insteadof", "interface", "isset", "match", "namespace", "new", "or", "private",
   "protected", "public", "readonly", "require", "require_once", "return", "static", "switch",
   "throw", "trait", "try", "unset", "use", "var", "while", "xor", "yield"]

/-- The word is reserved. -/
def isReserved (word : Text) : Bool := reservedWords.contains (Text.lower word)

end DocLint.Token

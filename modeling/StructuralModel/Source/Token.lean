/-! The words and marks of the notation. -/

namespace StructuralModel

inductive Keyword
  | package | part | definition | attribute | enumeration | redefines
  | comment | about | documentation | locale
  | importing | privately | publicly
  | ifThen | otherwise | yes | no | and | or | xor | not
deriving Repr, DecidableEq

namespace Keyword

def spelling : Keyword → String
  | .package => "package"
  | .part => "part"
  | .definition => "def"
  | .attribute => "attribute"
  | .enumeration => "enum"
  | .redefines => "redefines"
  | .comment => "comment"
  | .about => "about"
  | .documentation => "doc"
  | .locale => "locale"
  | .importing => "import"
  | .privately => "private"
  | .publicly => "public"
  | .ifThen => "if"
  | .otherwise => "else"
  | .yes => "true"
  | .no => "false"
  | .and => "and"
  | .or => "or"
  | .xor => "xor"
  | .not => "not"

def all : List Keyword :=
  [.package, .part, .definition, .attribute, .enumeration, .redefines, .comment, .about,
   .documentation, .locale, .importing, .privately, .publicly, .ifThen, .otherwise, .yes, .no,
   .and, .or, .xor, .not]

def ofSpelling? (word : String) : Option Keyword :=
  all.find? fun keyword => keyword.spelling == word

end Keyword

inductive Mark
  | redefines | specializes | doubleColon
  | equal | notEqual | lessEqual | greaterEqual | power
  | less | greater | plus | minus | star | slash | percent | caret | question | dot
  | assign | colon | semicolon | comma
  | leftBrace | rightBrace | leftBracket | rightBracket | leftParen | rightParen
deriving Repr, DecidableEq

namespace Mark

def spelling : Mark → List Char
  | .redefines => [':', '>', '>']
  | .specializes => [':', '>']
  | .doubleColon => [':', ':']
  | .equal => ['=', '=']
  | .notEqual => ['!', '=']
  | .lessEqual => ['<', '=']
  | .greaterEqual => ['>', '=']
  | .power => ['*', '*']
  | .less => ['<']
  | .greater => ['>']
  | .plus => ['+']
  | .minus => ['-']
  | .star => ['*']
  | .slash => ['/']
  | .percent => ['%']
  | .caret => ['^']
  | .question => ['?']
  | .dot => ['.']
  | .assign => ['=']
  | .colon => [':']
  | .semicolon => [';']
  | .comma => [',']
  | .leftBrace => ['\x7b']
  | .rightBrace => ['\x7d']
  | .leftBracket => ['[']
  | .rightBracket => [']']
  | .leftParen => ['(']
  | .rightParen => [')']

/-- A mark stands before the marks that its spelling begins with. -/
def all : List Mark :=
  [.redefines, .specializes, .doubleColon, .equal, .notEqual, .lessEqual, .greaterEqual, .power,
   .less, .greater, .plus, .minus, .star, .slash, .percent, .caret, .question, .dot, .assign,
   .colon, .semicolon, .comma, .leftBrace, .rightBrace, .leftBracket, .rightBracket, .leftParen,
   .rightParen]

/-- The longest mark that the text begins with. -/
def ofStart? (text : List Char) : Option Mark :=
  all.find? fun mark => mark.spelling.isPrefixOf text

end Mark

inductive Token
  | keyword (word : Keyword)
  | mark (mark : Mark)
  /-- A plain name, or what stands between the quotes of a quoted one. -/
  | identifier (name : String)
  | text (value : String)
  | number (value : Float)
  /-- What stands between the delimiters of a block comment. -/
  | comment (raw : String)

end StructuralModel

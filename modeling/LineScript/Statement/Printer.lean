import LineScript.Statement.Form

namespace LineScript.Statement

def printArguments (args : List Text) : Text :=
  Text.join [',', ' '] args

def print : Statement → Text
  | comment => commentMark
  | empty => []
  | sequence parts => Text.join [';'] parts
  | assign name expr => name ++ arrow ++ expr
  | extend field expr target => field ++ arrow ++ expr ++ extendsWord ++ target
  | fieldCall receiver field args => receiver ++ ' ' :: field ++ ':' :: printArguments args
  | call callee args => callee ++ ':' :: printArguments args
  | copy source => copyWord ++ source
  | object => ['o', 'b', 'j', 'e', 'c', 't']
  | block params body => '[' :: Text.join [','] params ++ '|' :: body ++ [']']
  | integer numeral => numeral
  | float numeral => numeral
  | boolean true => ['t', 'r', 'u', 'e']
  | boolean false => ['f', 'a', 'l', 's', 'e']
  | directive name rest => sigil :: name ++ ' ' :: rest
  | identifier name => name
  | parenthesized inner => '(' :: inner ++ [')']

end LineScript.Statement

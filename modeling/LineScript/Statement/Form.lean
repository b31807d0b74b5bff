import LineScript.Statement.Basic
import LineScript.Text.Bracket
import LineScript.Text.Word
import LineScript.Decimal.Numeral

namespace LineScript.Statement

def commentMark : Text := ['/', '/']

def sigil : Char := '!'

def arrow : Text := [' ', '<', '-', ' ']

def extendsWord : Text := [' ', 'e', 'x', 't', 'e', 'n', 'd', 's', ' ']

def copyWord : Text := ['c', 'o', 'p', 'y', ' ']

def isCalleeChar (c : Char) : Bool :=
  c.isAlphanum || c == '_' || c == ','

def isReceiverChar (c : Char) : Bool :=
  isCalleeChar c || Text.isBlank c

def isFieldChar (c : Char) : Bool :=
  c.isAlpha || c == '_' || c == ',' || c == ' '

/-- Cuts a text that ends in `word` and a name in front of the two. -/
def nameAfter? (word text : Text) : Option (Text × Text) :=
  let name := Text.takeEndWhile Text.isWord text
  if name.isEmpty then none
  else (word.isSuffixOf? (Text.dropEndWhile Text.isWord text)).map fun front => (front, name)

def binding? (text : Text) : Option (Text × Text) :=
  let name := text.takeWhile Text.isWord
  if name.isEmpty then none
  else do
    let expr ← arrow.isPrefixOf? (text.dropWhile Text.isWord)
    if expr.isEmpty || expr.contains '\n' then none else some (name, expr)

def assignment? (text : Text) : Option Statement :=
  (binding? text).map fun (name, expr) =>
    match nameAfter? extendsWord expr with
    | some (front, target) => .extend name front target
    | none => .assign name expr

/-- Whether a text has a space with only characters of field names behind it, at least one, and only
characters of receivers in front of it, at least one unless `started`. -/
def hasFieldName (started : Bool) : Text → Bool
  | [] => false
  | c :: rest =>
    isReceiverChar c &&
      ((started && c == ' ' && !rest.isEmpty && rest.all isFieldChar) || hasFieldName true rest)

/-- A receiver, a space, a field name and a colon. The receiver ends at the first space. -/
def fieldCall? (text : Text) : Option Statement := do
  let (head, _) ← Text.cut? ':' text
  if hasFieldName false head then
    let (receiver, rest) ← Text.cut? ' ' text
    let (field, args) := Text.cut ':' rest
    some (.fieldCall receiver (Text.trim field) (Text.arguments args))
  else none

def call? (text : Text) : Option Statement := do
  let (callee, args) ← Text.cut? ':' text
  if callee.isEmpty || !callee.all isCalleeChar then none
  else some (.call callee (Text.arguments args))

def copy? (text : Text) : Option Statement :=
  (nameAfter? copyWord text).map fun (_, source) => .copy source

def object? (text : Text) : Option Statement :=
  if text = ['o', 'b', 'j', 'e', 'c', 't'] then some .object else none

def parameters (list : Text) : List Text :=
  ((list.splitOn ',').map Text.trim).filter fun name => !name.isEmpty

def block? (text : Text) : Option Statement := do
  let inside ← ['['].isPrefixOf? text
  let (list, rest) ← Text.cut? '|' inside
  let body ← [']'].isSuffixOf? rest
  if list.all isFieldChar && !body.contains '\n' then some (.block (parameters list) body) else none

def integer? (text : Text) : Option Statement :=
  if Decimal.isInteger text then some (.integer text) else none

def float? (text : Text) : Option Statement :=
  if Decimal.isFraction text then some (.float text) else none

def boolean? (text : Text) : Option Statement :=
  if text = ['t', 'r', 'u', 'e'] then some (.boolean true)
  else if text = ['f', 'a', 'l', 's', 'e'] then some (.boolean false)
  else none

def directive? : Text → Option Statement
  | [] => none
  | c :: invocation =>
    if c == sigil && !invocation.isEmpty then
      let (name, rest) := Text.cut ' ' invocation
      some (.directive name rest)
    else none

def identifier? (text : Text) : Option Statement :=
  if Text.isName text then some (.identifier text) else none

def parenthesized? (text : Text) : Option Statement := do
  let inside ← ['('].isPrefixOf? text
  let inner ← [')'].isSuffixOf? inside
  some (.parenthesized inner)

def empty? (text : Text) : Option Statement :=
  if text.isEmpty then some .empty else none

/-- The forms of a statement that is no comment and no sequence. Their recognisers overlap, and the
first that applies counts. -/
def forms : List (Text → Option Statement) :=
  [assignment?, fieldCall?, call?, copy?, object?, block?, integer?, float?, boolean?, directive?,
    identifier?, parenthesized?, empty?]

/-- The form of a text. A comment is one whatever it holds, and semicolons outside of brackets come
before all other forms. -/
def classify? (text : Text) : Option Statement :=
  if commentMark.isPrefixOf text then some .comment
  else
    match Text.splitTopLevel ';' text with
    | first :: second :: others => some (.sequence ((first :: second :: others).map Text.trim))
    | _ => forms.findSome? fun form => form text

end LineScript.Statement

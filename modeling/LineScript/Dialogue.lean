import LineScript.Evaluation

namespace LineScript

def prompt : Text := "§ ".toList

def farewell : Text := "Bye!".toList

def banner : Text := "This is Tsapa v.".toList ++ languageVersion

def nestingLimit : Nat := 100000

inductive Reply where
  | value (text : Text)
  | report (text : Text)
  | exit
  /-- The line nests evaluations deeper than is allowed. -/
  | unfinished
deriving DecidableEq

def isLineEnd (c : Char) : Bool :=
  c == '\r' || c == '\n'

def failureReport (shown line : Text) : Text :=
  "Achtung! ".toList ++ shown ++ "\n\t-> \"".toList ++ line ++ ['"']

/-- Evaluates a line, without the line ends behind it, and replies. -/
def processLine (fuel : Nat) (line : Text) (session : Session) : Reply × Session :=
  let line := Text.dropEndWhile isLineEnd line
  match evalSource fuel line session with
  | .value ref session => (.value (session.store.text ref), session)
  | .failure .exit session => (.exit, session)
  | .failure why session =>
    (.report (failureReport why.display line), session.record (.failed why.display line))
  | .exhausted session => (.unfinished, session)

def Reply.isLast : Reply → Bool
  | value _ | report _ => false
  | exit | unfinished => true

/-- The replies to lines one after the other, up to the first one that ends the session. -/
def runLines (fuel : Nat) : Session → List Text → List Reply
  | _, [] => []
  | session, line :: lines =>
    match processLine fuel line session with
    | (reply, session) => reply :: if reply.isLast then [] else runLines fuel session lines

def Reply.output : Reply → Text
  | value text => text ++ ['\n']
  | report _ => []
  | exit => farewell ++ ['\n']
  | unfinished => []

def Reply.errors : Reply → Text
  | value _ => []
  | report text => text ++ ['\n']
  | exit => []
  | unfinished => "evaluation nests too deeply\n".toList

section Lines

variable {α : Type} [DecidableEq α]

/-- The lines of a stream: each ends at `feed`, and one `returning` in front of that goes with it.
An empty rest behind the last `feed` is no line. -/
def linesOf (feed returning : α) (stream : List α) : List (List α) :=
  let pieces := stream.splitOn feed
  let ended := pieces.dropLast.map fun piece =>
    if piece.getLast? = some returning then piece.dropLast else piece
  match pieces.getLast? with
  | none | some [] => ended
  | some rest => ended ++ [rest]

end Lines

def scriptLines (script : Text) : List Text :=
  linesOf '\n' '\r' script

end LineScript

import LineScript.Dialogue

namespace LineScript

inductive Command where
  | repl
  | eval (source : Text)
  | run (script : Text)
deriving DecidableEq

inductive Request where
  | version
  | misuse
  | session (banner : Bool) (command : Command)
deriving DecidableEq

namespace Request

def noBanner : Text := "--no-banner".toList

def optionsEnd : Text := ['-', '-']

def isOption : Text → Bool
  | '-' :: _ :: _ => true
  | _ => false

/-- The operands of a command, and whether its options leave out the banner. `quiet` tells whether
they do so already, for that may be said only once. -/
def operands? (quiet : Bool) : List Text → Option (Bool × List Text)
  | [] => some (quiet, [])
  | arg :: rest =>
    if arg = optionsEnd then some (quiet, rest)
    else if arg = noBanner then if quiet then none else operands? true rest
    else if isOption arg then none
    else (operands? quiet rest).map fun (quiet, operands) => (quiet, arg :: operands)

def command? (name : Text) (operands : List Text) : Option Command :=
  if name = "repl".toList then if operands = [] then some .repl else none
  else if name = "eval".toList then
    match operands with
    | [source] => some (.eval source)
    | _ => none
  else if name = "run".toList then
    match operands with
    | [script] => if script.isEmpty then none else some (.run script)
    | _ => none
  else none

def ofCommand (quiet : Bool) (name : Text) (rest : List Text) : Request :=
  match operands? false rest with
  | none => misuse
  | some (quieter, operands) =>
    match command? name operands with
    | none => misuse
    | some command => session (!(quiet || quieter)) command

def ofArguments (quiet : Bool) : List Text → Request
  | [] => session (!quiet) .repl
  | arg :: rest =>
    if arg = optionsEnd then if rest = [] then session (!quiet) .repl else misuse
    else if arg = noBanner then if quiet then misuse else ofArguments true rest
    else if arg = "--version".toList || ['-', 'V'].isPrefixOf arg then version
    else if isOption arg then misuse
    else ofCommand quiet arg rest

end Request

structure Result where
  code : Nat
  output : Text
  errors : Text
deriving DecidableEq

structure Surroundings where
  input : ByteArray
  file? : Text → Option ByteArray

namespace CommandLine

def programName : Text := "tsapa".toList

def usage : Text :=
  "Usage: ".toList ++ programName ++ " [--no-banner] [repl | eval SOURCE | run SCRIPT]\n".toList

def decode? (bytes : ByteArray) : Option Text :=
  (String.fromUTF8? bytes).map String.toList

/-- The lines of a stream of bytes up to the first that is no text, and whether there is one. -/
def readableLines (bytes : ByteArray) : List Text × Bool :=
  let lines := (linesOf 0x0A 0x0D bytes.toList).map fun line => decode? ⟨line.toArray⟩
  ((lines.takeWhile Option.isSome).filterMap id, lines.any Option.isNone)

/-- The result of a session that reads to the end of its lines. `trouble` is what stopped the
reading, which does not matter once a reply has ended the session. -/
def conclude (banner : Bool) (replies : List Reply) (trouble : Option Text) : Result :=
  let greeting := if banner then LineScript.banner ++ ['\n'] else []
  let output := greeting ++ replies.flatMap Reply.output
  let errors := replies.flatMap Reply.errors
  if replies.contains .unfinished then ⟨134, output, errors⟩
  else if replies.contains .exit then ⟨0, output, errors⟩
  else
    match trouble with
    | none => ⟨0, output, errors⟩
    | some trouble => ⟨1, output, errors ++ trouble ++ ['\n']⟩

def notText : Text := "stream did not contain valid UTF-8".toList

def notTextTrouble : Text :=
  "Error: Io(Error \x7b kind: InvalidData, message: \"".toList ++ notText ++ "\" \x7d)".toList

def noFileTrouble : Text :=
  "Error: Io(Os \x7b code: 2, kind: NotFound, message: \"No such file or directory\" \x7d)".toList

def inputTrouble (message : Text) : Text :=
  "I/O error: ".toList ++ message

def runInput (fuel : Nat) (banner : Bool) (trouble : Text) (input : ByteArray) : Result :=
  let (lines, broken) := readableLines input
  conclude banner (runLines fuel Session.new lines) (if broken then some trouble else none)

def runEval (fuel : Nat) (source : Text) : Result :=
  let reply := (processLine fuel source Session.new).1
  let code := match reply with
    | .value _ | .exit => 0
    | .report _ => 1
    | .unfinished => 134
  ⟨code, reply.output, reply.errors⟩

/-- A session over a script, none of which runs unless all of it is text. -/
def runScript (fuel : Nat) (script : Option ByteArray) : Result :=
  match script with
  | none => ⟨1, [], noFileTrouble ++ ['\n']⟩
  | some bytes =>
    match decode? bytes with
    | none => ⟨1, [], notTextTrouble ++ ['\n']⟩
    | some text => conclude false (runLines fuel Session.new (scriptLines text)) none

def run (fuel : Nat) (args : List Text) (around : Surroundings) : Result :=
  match Request.ofArguments false args with
  | .version => ⟨0, programName ++ ' ' :: languageVersion ++ ['\n'], []⟩
  | .misuse => ⟨2, [], usage⟩
  | .session banner .repl => runInput fuel banner notTextTrouble around.input
  | .session _ (.eval source) => runEval fuel source
  | .session _ (.run script) => runScript fuel (around.file? script)

/-- A run of the line editor on an input that is no terminal. -/
def runEditor (fuel : Nat) (banner : Bool) (input : ByteArray) : Result :=
  runInput fuel banner (inputTrouble notText) input

end CommandLine

end LineScript

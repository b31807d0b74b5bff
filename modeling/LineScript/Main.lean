import LineScript.CommandLine

namespace LineScript

def readScript (args : List Text) : IO (Option ByteArray) := do
  match Request.ofArguments false args with
  | .session _ (.run script) =>
    try
      let bytes ← IO.FS.readBinFile (String.ofList script)
      pure (some bytes)
    catch _ => pure none
  | _ => pure none

def readInput (args : List Text) : IO ByteArray := do
  match Request.ofArguments false args with
  | .session _ .repl => (← IO.getStdin).readBinToEnd
  | _ => pure ByteArray.empty

def program (args : List Text) : IO UInt32 := do
  let script ← readScript args
  let input ← readInput args
  let result := CommandLine.run nestingLimit args ⟨input, fun _ => script⟩
  IO.print (String.ofList result.output)
  IO.eprint (String.ofList result.errors)
  pure (UInt32.ofNat result.code)

end LineScript

def main (args : List String) : IO UInt32 :=
  LineScript.program (args.map String.toList)

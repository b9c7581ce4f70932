import CodeTint.Command.Run

/-!
# The command line

Reads files and the standard input, writes to the standard output, and ends as the program does.
-/

namespace CodeTint

def readTextFile (path : String) : IO (Option String) := do
  try
    return some (← IO.FS.readFile path)
  catch _ =>
    return none

partial def readAllBytes (stream : IO.FS.Stream) (bytes : ByteArray) : IO ByteArray := do
  let more ← stream.read 65536
  if more.isEmpty then return bytes else readAllBytes stream (bytes ++ more)

def readStandardInput : IO (Option String) := do
  try
    return String.fromUTF8? (← readAllBytes (← IO.getStdin) ByteArray.empty)
  catch _ =>
    return none

end CodeTint

open CodeTint in
def main (arguments : List String) : IO UInt32 := do
  let outcome ← runProgram arguments ⟨readTextFile, readStandardInput, IO.print⟩
  unless outcome.errors.isEmpty do IO.eprintln outcome.errors
  return UInt32.ofNat outcome.code

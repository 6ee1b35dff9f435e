import Stencil.CommandLine

/-!
# The program

Reads files and standard input for `CommandLine.run`, prints what it answers, and ends with its
exit code.
-/

set_option autoImplicit false

namespace Stencil

namespace Program

/-- The text that bytes are. -/
def decode (bytes : ByteArray) : Except FileError Text :=
  match String.fromUTF8? bytes with
  | some s => .ok s.toList
  | none => .error .notText

/-- The error of the system, as an error about a file. -/
def fileError : IO.Error → FileError
  | .noFileOrDirectory .. => .notFound
  | .noSuchThing .. => .notFound
  | .invalidArgument _ 36 _ => .nameTooLong
  | .inappropriateType _ code _ => if code = 21 then .isDirectory else .notDirectory
  | error => .other (toString error).toList

/-- Reads a file. -/
def readFile (path : PathName) : IO (Except FileError Text) := do
  try
    return decode (← IO.FS.readBinFile (String.ofList path))
  catch error => return .error (fileError error)

/-- Reads a stream to its end, after the bytes read before. -/
partial def readAll (stream : IO.FS.Stream) (before : ByteArray) : IO ByteArray := do
  let bytes ← stream.read 65536
  if bytes.isEmpty then return before else readAll stream (before ++ bytes)

/-- Reads standard input. -/
def readInput : IO (Except FileError Text) := do
  try
    return decode (← readAll (← IO.getStdin) .empty)
  catch error => return .error (fileError error)

end Program

end Stencil

/-- Runs the command line. -/
def main (arguments : List String) : IO UInt32 := do
  let access : Stencil.CommandLine.Access IO :=
    ⟨Stencil.Program.readFile, Stencil.Program.readInput⟩
  let result ← Stencil.CommandLine.run access (arguments.map String.toList)
  IO.print (String.ofList result.output)
  IO.eprint (String.ofList result.errors)
  return UInt32.ofNat result.code

import SimpleTypes.Shell.Repl

/-!
# The program

Runs a command line on the disk, the standard streams and an exit code. The
loop answers each line before it asks for the next.
-/

namespace SimpleTypes.Program

/-- A code may come with its sign turned. -/
def fileErrorOf : IO.Error → FileError
  | .noFileOrDirectory .. => .notFound
  | .inappropriateType _ code _ => if code = 21 ∨ code = -21 then .isFolder else .notFolder
  | .invalidArgument _ code _ => if code = 22 then .nulInName else .nameTooLong
  | error => .other (toString error)

/-- Files on the disk. -/
def disk : Files IO where
  read path := do
    try
      let bytes ← IO.FS.readBinFile path
      return (String.fromUTF8? bytes).elim (.error .notText) .ok
    catch error => return .error (fileErrorOf error)
  write path text := do
    try
      IO.FS.writeFile path text
      return .ok ()
    catch error => return .error (fileErrorOf error)

def showReply (reply : Reply) : IO UInt32 := do
  let stdout ← IO.getStdout
  stdout.putStr reply.output
  stdout.flush
  reply.errors.forM IO.eprintln
  return reply.exitCode.toUInt32

/-- A line of bytes from the standard input, with its line feed. -/
partial def readLine (stdin : IO.FS.Stream) (line : ByteArray) : IO ByteArray := do
  let byte ← stdin.read 1
  if byte.isEmpty then return line
  else if byte.toList = [10] then return line ++ byte
  else readLine stdin (line ++ byte)

partial def loop (stdin : IO.FS.Stream) : IO UInt32 := do
  let line ← readLine stdin .empty
  if line.isEmpty then showReply { output := Repl.farewell }
  else
    match Repl.turn line.toList with
    | .stop reply => showReply reply
    | .next reply =>
      discard (showReply reply)
      loop stdin

end SimpleTypes.Program

open SimpleTypes in
def main (args : List String) : IO UInt32 := do
  match Invocation.ofArgs? args with
  | none =>
    IO.eprintln Invocation.usage
    return 2
  | some .repl =>
    discard (Program.showReply { output := Repl.banner })
    Program.loop (← IO.getStdin)
  | some invocation => Program.showReply (← invocation.run Program.disk [])

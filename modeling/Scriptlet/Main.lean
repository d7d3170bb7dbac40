import Scriptlet.Command

/-!
# The program

Looks at the files that the command may consult, lets the command decide, and carries out its
report.
-/

namespace Scriptlet
namespace Command

/-- The code of the error that reading a folder makes. -/
def folderCode : UInt32 := 21

/-- What stands under a path on the machine, found out by reading it. -/
def lookAt (path : String) : IO (Option Entry) := do
  try
    let bytes ← IO.FS.readBinFile path
    return some (.file bytes.toList)
  catch
    | .noFileOrDirectory .. => return none
    | .invalidArgument .. => return some .overlong
    | .inappropriateType _ code _ => return if code = folderCode then some .folder else none
    | e => throw e

/-- What stands under several paths on the machine. -/
def lookAtAll (paths : List String) : IO Disk := do
  let found ← paths.mapM fun path => return (path, ← lookAt path)
  return fun path => (found.lookup path).join

/-- Carries out a report. -/
def Report.carryOut (r : Report) : IO UInt32 := do
  for (path, text) in r.written do
    IO.FS.writeFile path text
  (← IO.getStdout).putStr r.stdout
  (← IO.getStderr).putStr r.stderr
  match r.ending with
  | .exit status => return UInt32.ofNat status
  | .escape e =>
    (← IO.getStderr).putStrLn e.message
    return 1

end Command
end Scriptlet

/-- Runs the command with the arguments of the process, and without a table of names. -/
def main (arguments : List String) : IO UInt32 := do
  let disk ← Scriptlet.Command.lookAtAll (Scriptlet.Command.consulted arguments)
  (@Scriptlet.Command.runCommand .empty arguments disk).carryOut

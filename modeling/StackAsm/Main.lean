import StackAsm.CommandLine.Assembler
import StackAsm.CommandLine.Executor

/-!
# The program

The first argument chooses between the assembler and the executor; the others
are the arguments of that command.  The journal and failures go to the standard
error stream.  The exit code is one for a failed command and two for arguments
that are no command.
-/

set_option autoImplicit false

namespace StackAsm.Main

def fileError : IO.Error → FileError
  | .noFileOrDirectory _ _ _ => .notFound
  | .inappropriateType _ code _ =>
    if code = 20 ∨ code = 0 - 20 then .notADirectory else .isADirectory
  | error => .other (toString error)

/-- Files are those of the system. -/
instance systemFiles : Files IO where
  read path := do
    try
      return .ok (← IO.FS.readBinFile path).toList
    catch error =>
      return .error (fileError error)
  write path contents := do
    try
      IO.FS.writeBinFile path (ByteArray.mk contents.toArray)
      return .ok ()
    catch error =>
      return .error (fileError error)

/-- The number of instructions after which a run without a limit is given up. -/
def fuel : Nat := 0x4000000000000000

def present (kept : Level) (report : CommandLine.Report) : IO UInt32 := do
  IO.print report.console
  for line in report.errorLines kept do
    IO.eprintln line
  return report.exitCode

/-- Says that arguments are no command.  Asking for help is no mistake. -/
def refuse (usage : String) (rejection : CommandLine.Rejection) : IO UInt32 := do
  match rejection with
  | .helpRequested =>
    IO.println usage
    return 0
  | .versionRequested =>
    IO.println "0.1.0"
    return 0
  | _ =>
    IO.eprintln usage
    return 2

def assembler (arguments : List String) : IO UInt32 := do
  match CommandLine.Assembler.Invocation.ofArguments arguments with
  | .error rejection => refuse "usage: asm [--debug] build|run|check INPUT [OPTIONS]" rejection
  | .ok invocation =>
    present invocation.level (← CommandLine.Assembler.perform fuel invocation)

def executor (arguments : List String) : IO UInt32 := do
  match CommandLine.Executor.Invocation.ofArguments arguments with
  | .error rejection => refuse "usage: exec IMAGE [OPTIONS]" rejection
  | .ok invocation =>
    present invocation.level (← CommandLine.Executor.perform fuel invocation)

end StackAsm.Main

def main (arguments : List String) : IO UInt32 := do
  match arguments with
  | "asm" :: rest => StackAsm.Main.assembler rest
  | "exec" :: rest => StackAsm.Main.executor rest
  | _ =>
    IO.eprintln "usage: asm|exec ARGUMENTS"
    return 2

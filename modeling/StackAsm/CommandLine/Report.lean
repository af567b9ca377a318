import StackAsm.Journal

/-!
# What a command reports

A command writes text to the console, reports events, and either succeeds or
fails with a message.  Events and the message go to the error stream, the
message last.
-/

set_option autoImplicit false

namespace StackAsm.CommandLine

structure Report where
  /-- The text written to the console. -/
  console : String := ""
  /-- The events reported, in order. -/
  events : List Event := []
  failure : Option String := none

namespace Report

def journal (report : Report) (kept : Level) : List String :=
  (Event.shownAt kept report.events).map Event.line

/-- The first line of each event on the error stream. -/
def recordLines (report : Report) (kept : Level) : List String :=
  (Event.shownAt kept report.events).flatMap fun event => event.streamLines.take 1

def failureLines (report : Report) : List String :=
  match report.failure with
  | none => []
  | some message => Text.streamLines ("Error: " ++ message).toList

/-- The lines on the error stream that are not the first line of an event. -/
def otherLines (report : Report) (kept : Level) : List String :=
  ((Event.shownAt kept report.events).flatMap fun event => event.streamLines.drop 1) ++
    report.failureLines

def errorLines (report : Report) (kept : Level) : List String :=
  (Event.shownAt kept report.events).flatMap Event.streamLines ++ report.failureLines

def exitCode (report : Report) : UInt32 :=
  if report.failure.isSome then 1 else 0

end Report

end StackAsm.CommandLine

import Timepiece.Workshop.FragmentReport
import Timepiece.Workshop.Inspection
import Timepiece.Workshop.Task

/-!
# The command line

The workshop on the files of the machine: reads what a task needs, has the task
planned, makes the planned writes and prints what there is to tell.
-/

namespace Timepiece.Main

/-- The contents of a file. -/
def readFile (path : String) : IO (Except DiskFault Bytes) := do
  try
    let data ← IO.FS.readBinFile path
    return .ok data.data.toList
  catch
    | .noFileOrDirectory .. => return .error .missing
    | _ => return .error .unusable

/-- Writes a file, and says whether that succeeded. -/
def writeFile (path : String) (data : Bytes) : IO Bool := do
  try
    IO.FS.writeBinFile path ⟨data.toArray⟩
    return true
  catch _ => return false

/-- Makes the writes of a plan. -/
def carryOut (production : Production) : IO (Except WorkshopFault Summary) := do
  for (path, data) in production.writes do
    unless ← writeFile path data do return .error (.unwritable path)
  return production.outcome

/-- What there is to tell after a task. -/
def perform : WorkshopTask → IO (Except WorkshopFault String)
  | .compile order asJson => do
    let source ← readFile order.input
    let counter ← readFile order.counterPath
    let result ← carryOut (order.plan source counter)
    return result.map fun summary => (if asJson then summary.toLines else summary.text) ++ "\n"
  | .inspect path => do
    match ← readFile path with
    | .ok binary => return (Inspection.of binary).map Inspection.text
    | .error _ => return .error (.unreadable path)
  | .fragment path => do
    match ← readFile path with
    | .ok payload => return .ok (FragmentReport.text payload)
    | .error _ => return .error (.unreadable path)

/-- Prints what went wrong. -/
def complain (message : String) (causes : List (Option String)) : IO UInt32 := do
  let err ← IO.getStderr
  err.putStrLn ("Error: " ++ message)
  for cause in causes do
    err.putStrLn ("  caused by: " ++ cause.getD "malformed document")
  return 1

end Timepiece.Main

open Timepiece in
/-- Carries out the task that the arguments describe. -/
def main (arguments : List String) : IO UInt32 := do
  match WorkshopTask.ofArguments arguments with
  | .error fault => Main.complain fault.message []
  | .ok task =>
    match ← Main.perform task with
    | .ok text =>
      (← IO.getStdout).putStr text
      return 0
    | .error fault => Main.complain fault.message fault.causes

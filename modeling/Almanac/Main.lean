import Std.Time.DateTime.Timestamp
import Almanac.CommandLine.Run

/-!
# The command

The command line of the library: it reads the arguments, two variables of the
environment, the clock and if need be the input, and prints the outcome.
-/

namespace Almanac.CommandLine

/-- All bytes of a stream. -/
partial def readAll (stream : IO.FS.Stream) (before : ByteArray) : IO ByteArray := do
  let block ← stream.read 65536
  if block.isEmpty then return before else readAll stream (before ++ block)

/-- The instant that the clock shows. -/
def clock : IO Instant := do
  let time ← Std.Time.Timestamp.now
  match Instant.ofUtc? (Civil.ofNanos time.toNanosecondsSinceUnixEpoch.val) with
  | some i => return i
  | none => throw (IO.userError "the clock is outside the calendar")

end Almanac.CommandLine

open Almanac.CommandLine in
/-- Run the command and leave its exit code. -/
def main (arguments : List String) : IO UInt32 := do
  let env : Environment :=
    { tz := ← IO.getEnv "CALCDATE_TZ", logLevel := ← IO.getEnv "CALCDATE_LOG" }
  let stdin ← IO.getStdin
  let terminal ← stdin.isTty
  let input ← if readsInput env arguments terminal then readAll stdin ByteArray.empty
    else pure ByteArray.empty
  let outcome := command env (← clock) arguments input.toList terminal
  IO.print outcome.stdout
  IO.eprint outcome.stderr
  return outcome.code

import Paybook.CommandLine
import Std.Time.Zoned.Database

/-! # The program

Reads the files, the clock, the zone and random numbers, runs the command line and writes what it
gives. -/

open Paybook

/-- The bytes of a file, if it can be read. -/
def readBytes? (path : String) : IO (Option (List UInt8)) := do
  try
    return some (← IO.FS.readBinFile path).toList
  catch _ =>
    return none

/-- Whether a file or folder can be opened. -/
def opens (path : String) : IO Bool := do
  try
    let _ ← IO.FS.Handle.mk path .read
    return true
  catch _ =>
    return false

/-- The zone of this machine, and UTC if it is not known. -/
def localZone : IO Time.Zone := do
  try
    let rules ← Std.Time.Database.defaultGetLocalZoneRules
    return .ofOffsets fun second =>
      (rules.timezoneAt (Std.Time.Timestamp.ofSecondsSinceUnixEpoch ⟨second⟩)).offset.second.val
  catch _ =>
    return .utc

/-- The time on this machine. -/
def currentTime : IO Time.Instant := do
  let now ← Std.Time.Timestamp.now
  return ⟨now.val.second.val, now.val.nano.val.toNat⟩

/-- A random number of 64 bits. -/
def randomWord : IO Nat := do
  let bytes ← IO.getRandomBytes 8
  return bytes.toList.foldl (fun n b => 256 * n + b.toNat) 0

def main (arguments : List String) : IO UInt32 := do
  let files ← (CommandLine.paths arguments).mapM fun path => do return (path, ← readBytes? path)
  let opened ← (CommandLine.paths arguments).filterM opens
  let seed ← randomWord
  let around : CommandLine.Surroundings := {
    file := fun path => (files.lookup path).join
    opens := fun path => opened.contains path
    zone := ← localZone
    now := ← currentTime
    tokens := fun n =>
      BitVec.ofNat _ (Gateway.draw seed (2 * n) + Gateway.draw seed (2 * n + 1) <<< 64)
    spareSeed := ← randomWord }
  let result := CommandLine.run around arguments
  IO.eprint result.errors
  IO.print result.output
  return result.exit.toUInt32

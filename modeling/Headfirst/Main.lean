import Headfirst.CommandLine.Commands

namespace Headfirst.CommandLine

/-! Carries out commands on real files and streams. -/

def FileFault.ofNumber (number : UInt32) (text : String) : FileFault :=
  match min number (0 - number) with
  | 2 => .notFound
  | 13 => .noPermission
  | 20 => .notDirectory
  | 21 => .isDirectory
  | 36 => .nameTooLong
  | number => .other number.toNat text

def FileFault.ofError : IO.Error → FileFault
  | .noFileOrDirectory _ number text => .ofNumber number text
  | .alreadyExists _ number text
  | .interrupted _ number text
  | .invalidArgument _ number text
  | .permissionDenied _ number text
  | .resourceExhausted _ number text
  | .inappropriateType _ number text
  | .noSuchThing _ number text => .ofNumber number text
  | .otherError number text
  | .resourceBusy number text
  | .resourceVanished number text
  | .unsupportedOperation number text
  | .hardwareFault number text
  | .unsatisfiedConstraints number text
  | .illegalOperation number text
  | .protocolError number text
  | .timeExpired number text => .ofNumber number text
  | .unexpectedEof => .other 0 "unexpected end of file"
  | .userError text => .other 0 text

partial def readAll (stream : IO.FS.Stream) (before : ByteArray) : IO ByteArray := do
  let bytes ← stream.read 65536
  if bytes.isEmpty then return before
  readAll stream (before ++ bytes)

def Source.read : Source → IO ByteArray
  | .standardInput => do readAll (← IO.getStdin) .empty
  | .file path => IO.FS.readBinFile path

def Ending.deliver (ending : Ending) : IO UInt32 := do
  let stdout ← IO.getStdout
  stdout.putStr ending.stdout
  stdout.flush
  let stderr ← IO.getStderr
  stderr.putStr ending.stderr
  stderr.flush
  return ending.status.code.toUInt32

def Action.perform : Action → IO UInt32
  | .finish ending => ending.deliver
  | .read source next => do
      match ← source.read.toBaseIO with
      | .ok bytes => (next (.ok bytes.toList)).perform
      | .error error => (next (.error (.ofError error))).perform
  | .write path content next => do
      match ← (IO.FS.writeFile path content).toBaseIO with
      | .ok () => (next none).perform
      | .error error => (next (some (.ofError error))).perform

/-- Colours need a terminal, and nobody who objects. -/
def paletteHere : IO Palette := do
  return ⟨(← (← IO.getStderr).isTty) && (← IO.getEnv "NO_COLOR").isNone⟩

end Headfirst.CommandLine

open Headfirst.CommandLine in
def main (arguments : List String) : IO UInt32 := do
  (action (← paletteHere) arguments).perform

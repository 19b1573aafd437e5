import Smpl.CommandLine.Run

namespace Smpl

/-- The fault that an error of the system means, if it is one of those known. -/
def FileFault.ofError? : IO.Error → Option FileFault
  | .noFileOrDirectory _ _ _ => some .noSuchFile
  | .inappropriateType _ 21 _ => some .isDirectory
  | .inappropriateType _ _ _ => some .notDirectory
  | .invalidArgument _ 36 _ => some .nameTooLong
  | _ => none

/-- Looks at what a path leads to, and reads it if it is a file. -/
def lookAt (path : String) : IO (Except FileFault Entry × List UInt8) := do
  if path.toList.contains '\x00' then return (.error .nullCharacter, [])
  try
    let bytes ← IO.FS.readBinFile path
    return (.ok .file, bytes.toList)
  catch error =>
    match FileFault.ofError? error with
    | some .isDirectory => return (.ok .directory, [])
    | fault => return (.error (fault.getD .noSuchFile), [])

/-- Writes a file. Gives the reason if that is not possible. -/
def writeTo (path : PathName) (text : String) : IO (Option FileFault) := do
  try
    IO.FS.writeFile path.text text
    return none
  catch error =>
    match FileFault.ofError? error with
    | some fault => return some fault
    | none => throw error

/-- What is around for the paths that some words may name. -/
def look (words : List String) : IO Surroundings := do
  let paths := match Arguments.read words with
    | .ok args => args.files ++ args.parameters.map Prod.snd
    | .error _ => []
  let entries ← paths.mapM fun path => do
    let found ← lookAt path
    return (path, found)
  return {
    entry := fun path =>
      ((entries.find? fun (name, _) => name = path || (PathName.ofText name).text = path).map (·.2.1)).getD
        (.error .noSuchFile)
    bytes := fun path =>
      ((entries.find? fun (name, _) => PathName.ofText name = path).map (·.2.2)).getD []
    writeFault := fun _ => none }

def usageText : String :=
  "Usage: smplc [OPTIONS] [FILES]...\nTry 'smplc --help' for help.\n"

end Smpl

open Smpl in
def main (words : List String) : IO UInt32 := do
  let around ← look words
  let expected := runCommand around Backends.standard words
  let fault ← match expected.written with
    | some (path, text) => writeTo path text
    | none => pure none
  let outcome :=
    if fault.isSome then runCommand { around with writeFault := fun _ => fault } Backends.standard words
    else expected
  IO.print outcome.stdout
  IO.eprint (if outcome.isUsageError then usageText else outcome.stderr)
  return outcome.exitCode.toUInt32

import Nodal.CommandLine.Run

/-! # The program -/

open Nodal

def readFailure : IO.Error → String
  | .noFileOrDirectory _ _ _ => Folder.missing
  | .inappropriateType _ code details => details ++ " (os error " ++ toString code ++ ")"
  | e => toString e

def readBytes (path : String) : IO (Except String ByteArray) := do
  try
    return .ok (← IO.FS.readBinFile path)
  catch e =>
    return .error (readFailure e)

def main (args : List String) : IO UInt32 := do
  let read ←
    match CommandLine.Arguments.ofList? args with
    | some a => readBytes a.file
    | none => pure (.error Folder.missing)
  let r := CommandLine.run Simulator.ampleBudget (fun _ => read) args
  r.output.forM IO.println
  r.errors.forM IO.eprintln
  return r.code

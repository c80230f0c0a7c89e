import Nodal.Description.Reading

/-! # Reading files

How a file is read does not matter to what is done with it: a reader maps a path to the bytes of a
file, or to the reason why there are none. -/

namespace Nodal

/-- Gives the bytes of a file, or says why it cannot. -/
abbrev FileReader := String → Except String ByteArray

def Description.ofFile (read : FileReader) (path : String) :
    Except (Failure Float) (Description Float) :=
  match read path with
  | .error cause => .error (.fileRead path cause)
  | .ok bytes =>
    match String.fromUTF8? bytes with
    | none => .error (.fileRead path "stream did not contain valid UTF-8")
    | some text => ofJson text

inductive FileEntry where
  | file (bytes : ByteArray)
  | folder

/-- A working folder without subfolders: its files by name. -/
structure Folder where
  files : List (String × ByteArray)

namespace Folder

def missing : String := "No such file or directory (os error 2)"

def isFolder : String := "Is a directory (os error 21)"

def noFolder : String := "Not a directory (os error 20)"

def tooLong : String := "File name too long (os error 36)"

def badName : String := "file name contained an unexpected NUL byte"

/-- The longest name of a file, in bytes. -/
def nameLimit : Nat := 255

/-- Follows the parts of a path. A part that is empty or a dot stays where it is; two dots lead out
of the folder, where nothing is known but that folders are. -/
def follow (f : Folder) : Option FileEntry → List String → Except String FileEntry
  | none, [] => .ok .folder
  | some e, [] => .ok e
  | none, part :: rest =>
    if part = "" ∨ part = "." then follow f none rest
    else if nameLimit < part.utf8ByteSize then .error tooLong
    else
      match f.files.lookup part with
      | some bytes => follow f (some (.file bytes)) rest
      | none => .error missing
  | some (.file _), _ :: _ => .error noFolder
  | some .folder, part :: rest =>
    if part = "" ∨ part = "." ∨ part = ".." then follow f (some .folder) rest
    else if nameLimit < part.utf8ByteSize then .error tooLong
    else .error missing

/-- Starts at the working folder, or above it. -/
def locate (f : Folder) (path : String) : Except String FileEntry :=
  if path.contains '\x00' then .error badName
  else
    match path.splitOn "/" with
    | [""] => .error missing
    | "" :: rest => follow f (some .folder) rest
    | ".." :: rest => follow f (some .folder) rest
    | parts => follow f none parts

def reader (f : Folder) : FileReader := fun path =>
  match f.locate path with
  | .ok (.file bytes) => .ok bytes
  | .ok .folder => .error isFolder
  | .error cause => .error cause

end Folder

end Nodal

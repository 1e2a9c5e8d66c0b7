/-!
# Folders

The files that a program can reach: a flat folder of named files, which is also the working
directory. A path names a file of the folder, the folder itself or nothing.
-/

namespace Funge

/-- Why a file cannot be read or written. -/
inductive FileError where
  | notFound
  | notDirectory
  | isDirectory
  | nameTooLong
deriving DecidableEq

def FileError.message : FileError → String
  | .notFound => "No such file or directory (os error 2)"
  | .notDirectory => "Not a directory (os error 20)"
  | .isDirectory => "Is a directory (os error 21)"
  | .nameTooLong => "File name too long (os error 36)"

/-- Named files with their contents. -/
structure Folder where
  files : List (String × List UInt8)
deriving DecidableEq

namespace Folder

def empty : Folder := ⟨[]⟩

def get? (f : Folder) (name : String) : Option (List UInt8) := f.files.lookup name

/-- Replaces the contents of a file, or makes it. -/
def put (f : Folder) (name : String) (contents : List UInt8) : Folder :=
  if (f.get? name).isSome then
    ⟨f.files.map fun (n, c) => if n = name then (n, contents) else (n, c)⟩
  else ⟨f.files ++ [(name, contents)]⟩

/-- Greatest length of a name in bytes. -/
def maxName : Nat := 255

/-- The parts of a path that lead somewhere. -/
def steps (path : String) : List String :=
  (path.splitOn "/").filter fun part => part ≠ "" ∧ part ≠ "."

/-- The name of the file that a path stands for. A path below a file or below a folder that
does not exist stands for none, and one that ends in a slash stands for a folder. -/
def resolve (f : Folder) (path : String) : Except FileError String :=
  if path.isEmpty then .error .notFound
  else
    match steps path with
    | [] => .error .isDirectory
    | [name] =>
      if name = ".." then .error .isDirectory
      else if path.startsWith "/" then .error .notFound
      else if maxName < name.utf8ByteSize then .error .nameTooLong
      else if path.endsWith "/" || path.endsWith "/." then
        .error (if (f.get? name).isSome then .notDirectory else .notFound)
      else .ok name
    | first :: _ => .error (if (f.get? first).isSome then .notDirectory else .notFound)

def read (f : Folder) (path : String) : Except FileError (List UInt8) := do
  let name ← f.resolve path
  match f.get? name with
  | some contents => return contents
  | none => throw .notFound

def write (f : Folder) (path : String) (contents : List UInt8) : Except FileError Folder := do
  let name ← f.resolve path
  return f.put name contents

end Folder

end Funge

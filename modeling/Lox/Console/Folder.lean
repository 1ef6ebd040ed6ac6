import Lox.Console.Basic

/-!
# Folders

A folder in memory, and what a path leads to from it.  A path is followed name by
name, and the first name that leads nowhere decides why it cannot be read.
-/

namespace Lox

/-- A folder that holds files and no other folders.  Of the folders around it
nothing is known but that they are there. -/
abbrev Folder : Type := List (String × ByteArray)

/-- Where a path has led to. -/
inductive Place
  | folder
  /-- A folder around the folder. -/
  | around
  | file (bytes : ByteArray)

namespace Folder

/-- The number of bytes that a name may have. -/
def nameLimit : Nat := 255

/-- The number of bytes that a path may have. -/
def pathLimit : Nat := 4095

/-- The file of this name. -/
def find (folder : Folder) (name : String) : Except ReadError Place :=
  match folder.lookup name with
  | some bytes => .ok (.file bytes)
  | none => .error .notFound

/-- Follows one name of a path.  Only a folder has names in it; of these, the empty
one and `.` stay where they are, and `..` leads out of the folder. -/
def follow (folder : Folder) : Place → (name : String) → Except ReadError Place
  | .file _, _ => .error .notDirectory
  | place, "" | place, "." => .ok place
  | _, ".." => .ok .around
  | place, name =>
      if nameLimit < name.utf8ByteSize then .error .nameTooLong
      else
        match place with
        | .folder => folder.find name
        | _ => .error .notFound

/-- Where a path leads to.  One that begins with a stroke begins around the folder. -/
def resolve (folder : Folder) (path : String) : Except ReadError Place :=
  if path.isEmpty then .error .notFound
  else if pathLimit < path.utf8ByteSize then .error .nameTooLong
  else (path.splitOn "/").foldlM folder.follow (if path.startsWith "/" then .around else .folder)

/-- The bytes of the file at a path. -/
def read (folder : Folder) (path : String) : Except ReadError ByteArray :=
  match folder.resolve path with
  | .ok (.file bytes) => .ok bytes
  | .ok _ => .error .isDirectory
  | .error error => .error error

end Folder

end Lox

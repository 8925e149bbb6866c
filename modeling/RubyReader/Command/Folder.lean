/-
# `Folder` — looking up a path among files

A path is a list of names between slashes.  Each name but the last must be
a folder; `.` stays in a folder and `..` leaves it.  Nothing is known of
what lies above the folder that is looked in.
-/
namespace RubyReader

/-- Why a file cannot be read. -/
inductive FileError where
  | missing
  | notFolder
  | isFolder
  | nameTooLong
  /-- its bytes are no text -/
  | notText
  /-- what the system says about any other failure -/
  | other (text : String)
deriving DecidableEq

/-- The wording of a failure to read. -/
def FileError.text : FileError → String
  | missing => "No such file or directory (os error 2)"
  | notFolder => "Not a directory (os error 20)"
  | isFolder => "Is a directory (os error 21)"
  | nameTooLong => "File name too long (os error 36)"
  | notText => "stream did not contain valid UTF-8"
  | other text => text

def textOfBytes (bytes : ByteArray) : Except FileError String :=
  match String.fromUTF8? bytes with
  | some text => .ok text
  | none => .error .notText

/-- Files by their paths, seen from one folder. -/
structure Folder where
  files : List (List String × ByteArray)

namespace Folder

/-- A name as the folders that it leads through. -/
def names (path : String) : List String := path.splitOn "/"

def ofFiles (files : List (String × ByteArray)) : Folder :=
  ⟨files.map fun (path, bytes) => (names path, bytes)⟩

/-- The longest name, in bytes. -/
def nameLimit : Nat := 255

/-- The longest path, in bytes. -/
def pathLimit : Nat := 4095

/-- Follows names from a place in the folder; a place above it is `none`. -/
def follow (folder : Folder) : Option (List String) → List String → Except FileError String
  | _, [] => .error .isFolder
  | place, name :: rest =>
    if name = "" || name = "." then follow folder place rest
    else if name = ".." then
      follow folder (place.bind fun inside => if inside.isEmpty then none else some inside.dropLast)
        rest
    else if nameLimit < name.utf8ByteSize then .error .nameTooLong
    else match place with
      | none => .error .missing
      | some above =>
        let path := above ++ [name]
        match folder.files.find? fun file => file.1 = path with
        | some file => if rest.isEmpty then textOfBytes file.2 else .error .notFolder
        | none =>
          if folder.files.any fun file => path.isPrefixOf file.1 then
            follow folder (some path) rest
          else .error .missing

def read (folder : Folder) (path : String) : Except FileError String :=
  if path = "" then .error .missing
  else if pathLimit < path.utf8ByteSize then .error .nameTooLong
  else follow folder (if path.startsWith "/" then none else some []) (names path)

end Folder
end RubyReader

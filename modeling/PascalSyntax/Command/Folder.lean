/-!
# A folder with one file

A path is walked part by part from the folder, and what it leads to decides
whether there is something to read.
-/

namespace PascalSyntax

inductive ReadError where
  | notFound
  | isFolder
  | notFolder
  /-- The bytes of the file are no text in UTF-8. -/
  | notText
  /-- What the system says on any other failure. -/
  | other (text : String)
deriving DecidableEq, Repr

def ReadError.message : ReadError → String
  | .notFound => "No such file or directory (os error 2)"
  | .isFolder => "Is a directory (os error 21)"
  | .notFolder => "Not a directory (os error 20)"
  | .notText => "stream did not contain valid UTF-8"
  | .other text => text

/-- A folder with a single file in it. -/
structure Folder where
  fileName : String
  contents : ByteArray

namespace Folder

/-- Where a walk along a path has come to. -/
inductive Place where
  /-- The folder itself. -/
  | here
  /-- A folder above it, of which nothing else is known. -/
  | above
  | file
deriving DecidableEq, Repr

/-- Takes one part of a path.  An empty part and a single dot stay in a folder,
and two dots leave it. -/
def step (folder : Folder) (place : Place) (part : String) : Except ReadError Place :=
  match place with
  | .file => .error .notFolder
  | .here =>
    if part = "" || part = "." then .ok .here
    else if part = ".." then .ok .above
    else if part = folder.fileName then .ok .file
    else .error .notFound
  | .above => if part = "" || part = "." || part = ".." then .ok .above else .error .notFound

def parts : List Char → List (List Char)
  | [] => [[]]
  | '/' :: cs => [] :: parts cs
  | c :: cs =>
    match parts cs with
    | part :: others => (c :: part) :: others
    | [] => [[c]]

/-- Reads the file at a path.  A path that starts with a slash does not start in
this folder. -/
def read (folder : Folder) (path : String) : Except ReadError ByteArray := do
  let start := match path.toList with
    | '/' :: _ => .above
    | _ => .here
  match ← ((parts path.toList).map String.ofList).foldlM folder.step start with
  | .file => return folder.contents
  | _ => throw .isFolder

end Folder
end PascalSyntax

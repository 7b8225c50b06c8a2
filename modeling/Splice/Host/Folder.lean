import Splice.Error
import Splice.Text.Utf8

/-!
# Folders

A folder holds files, and files hold bytes. A path leads from the folder through
its components; nothing is known of what lies outside the folder but that it is
made of folders.
-/

namespace Splice

/-- The files of a folder. -/
structure Folder where
  files : List (Text × List UInt8)

/-- Where a path leads. -/
inductive Place where
  /-- The folder itself. -/
  | inside
  /-- A folder around it. -/
  | outside
  /-- A file. -/
  | file (bytes : List UInt8)

namespace Folder

/-- Whether a component of a path stays where it is. -/
def isIdle (component : Text) : Bool :=
  component.isEmpty || component == ".".toList

/-- Follows one component of a path. Nothing lies below a file, not even the file
itself. -/
def follow (folder : Folder) (place : Place) (component : Text) : Except FileFault Place :=
  match place with
  | .file _ => .error .notFolder
  | .outside =>
      if isIdle component || component == "..".toList then .ok .outside else .error .missing
  | .inside =>
      if isIdle component then .ok .inside
      else if component = "..".toList then .ok .outside
      else
        match folder.files.lookup component with
        | some bytes => .ok (.file bytes)
        | none => .error .missing

/-- Where a path leads. A path that starts with a slash starts outside. -/
def locate (folder : Folder) (path : Text) : Except FileFault Place :=
  if path.isEmpty then .error .missing
  else
    (path.cutAt '/').foldlM folder.follow (if path.head? = some '/' then .outside else .inside)

/-- The text of the file at a path. -/
def content (folder : Folder) (path : Text) : Except FileFault Text := do
  match ← folder.locate path with
  | .file bytes =>
      match Text.ofUtf8? bytes with
      | some text => return text
      | none => throw .notText
  | .inside | .outside => throw .isFolder

/-- The text of the file at a path, or an error that names the path. -/
def fetch (folder : Folder) (path : Text) : Except Error Text :=
  match folder.content path with
  | .ok text => .ok text
  | .error fault => .error (.host (.unreadable path fault))

end Folder

end Splice

import MiniVerilog.File.Error
import MiniVerilog.File.Path
import MiniVerilog.NameMap

/-! # Directories

A directory holds files, also in directories inside it. Of the rest of the system
only what every system has is known: a few directories, and a device that is empty
and forgets what is written to it.

A path is followed name by name, and before each name the place so far has to be a
directory, even if the name leads nowhere else.
-/

namespace MiniVerilog

/-- The files in a directory, by their names with slashes between them. -/
structure Directory where
  files : NameMap ByteArray := .empty

namespace Directory

/-- What is at a place. -/
inductive Entry where
  | absent
  | file (bytes : ByteArray)
  | directory

/-- The directories that every system has. -/
def systemDirectories : List (List String) :=
  [[], ["dev"], ["tmp"]]

/-- The device that is empty. -/
def nullDevice : List String :=
  ["dev", "null"]

/-- The name under which a file is held. -/
def key (names : List String) : String :=
  "/".intercalate names

/-- Some file is in the directory with these names. -/
def holdsInside (directory : Directory) (names : List String) : Bool :=
  names.isEmpty || directory.files.names.any fun name =>
    (key names ++ "/").toList.isPrefixOf name.toList

/-- What is at a place. Nothing is known of files outside the directory. -/
def entry (directory : Directory) (place : Path.Place) : Entry :=
  match place.base with
  | .here =>
    match directory.files.get? (key place.names) with
    | some bytes => .file bytes
    | none => if directory.holdsInside place.names then .directory else .absent
  | .above => if place.names.isEmpty then .directory else .absent
  | .root =>
    if systemDirectories.contains place.names then .directory
    else if place.names = nullDevice then .file .empty
    else .absent

/-- A place can only be entered if it is a directory. -/
def enter (directory : Directory) (place : Path.Place) : Except FileError Unit :=
  match directory.entry place with
  | .directory => .ok ()
  | .file _ => .error .notDirectory
  | .absent => .error .missing

/-- Follows a name from a place. -/
def follow (directory : Directory) (place : Path.Place) (name : String) :
    Except FileError Path.Place := do
  directory.enter place
  if name = "" || name = "." then return place
  if name = ".." then return place.parent
  if Path.maxNameSize < name.utf8ByteSize then throw .nameTooLong
  return place.child name

/-- Follows names one after another. -/
def followAll (directory : Directory) (place : Path.Place) (names : List String) :
    Except FileError Path.Place :=
  names.foldlM directory.follow place

/-- The path that a text stands for, if it is neither empty nor too long. -/
def path (text : String) : Except FileError Path :=
  if text = "" then .error .missing
  else if Path.maxSize < text.utf8ByteSize then .error .nameTooLong
  else .ok (Path.ofText text)

/-- The bytes of a file. -/
def readBytes (directory : Directory) (text : String) : Except FileError ByteArray := do
  let path ← path text
  match directory.entry (← directory.followAll path.start path.names) with
  | .file bytes => return bytes
  | .directory => throw .directory
  | .absent => throw .missing

/-- The text of a file. -/
def read (directory : Directory) (path : String) : Except FileError String := do
  FileError.decode (← directory.readBytes path)

/-- The directory after a text is given to the file at a place. Files outside are
not kept. -/
def put (directory : Directory) (place : Path.Place) (content : String) : Directory :=
  match place.base with
  | .here => ⟨directory.files.insert (key place.names) content.toUTF8⟩
  | .above | .root => directory

/-- Gives a file a text. Its directory has to exist, and a path with a slash at
the end names no file. -/
def write (directory : Directory) (text content : String) : Except FileError Directory := do
  let path ← path text
  match path.trimmed.getLast? with
  | none => throw .directory
  | some name =>
    let parent ← directory.followAll path.start path.trimmed.dropLast
    directory.enter parent
    if Path.isDots name || path.trimmed.length < path.names.length then throw .directory
    let place ← directory.follow parent name
    match directory.entry place with
    | .directory => throw .directory
    | .file _ | .absent => return directory.put place content

end Directory

end MiniVerilog

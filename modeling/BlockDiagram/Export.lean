import BlockDiagram.Error
import BlockDiagram.Path

/-!
# Exports

An export writes files into one directory. Of a file's name only the last segment counts, so no
file leaves the directory, and of two files with one last segment the later one stays. Names have a
greatest length. What was made and written before a failure stays on the disk.

* `Export.write`: writes files into a directory.
* `Export.target`: the directory that a request names, below the export root.
-/

namespace BlockDiagram

/-- Directories and the texts of files, by their absolute paths. -/
structure Disk where
  directories : List (List String)
  files : List (List String × String)
deriving DecidableEq, Repr

namespace Disk

def empty : Disk := ⟨[], []⟩

def hasFile (disk : Disk) (path : List String) : Bool :=
  disk.files.any fun file => file.1 == path

def hasDirectory (disk : Disk) (path : List String) : Bool :=
  path.isEmpty || disk.directories.contains path

def read? (disk : Disk) (path : List String) : Option String := disk.files.lookup path

def ancestry (path : List String) : List (List String) :=
  (List.range path.length).map fun n => path.take (n + 1)

/-- Whether a name is too long for a disk. -/
def isLongName (name : String) : Bool := decide (255 < name.utf8ByteSize)

/-- Whether a path is too long for a disk. -/
def isLongPath (path : List String) : Bool := decide (4095 < (Path.render path).utf8ByteSize)

/-- The disk with a directory and those above it; none of them may be a file. Those above a name
that is too long are made. -/
def makeDirectory (disk : Disk) (path : List String) : Disk × Except Error Unit :=
  let made := path.takeWhile fun name => !isLongName name
  if isLongPath path then (disk, .error (.defect .longName))
  else if (ancestry made).any disk.hasFile then (disk, .error (.defect .isDirectory))
  else
    let new := (ancestry made).filter fun above => !disk.directories.contains above
    ({ disk with directories := disk.directories ++ new },
      if made.length < path.length then .error (.defect .longName) else .ok ())

def putFile (disk : Disk) (path : List String) (text : String) : Disk :=
  { disk with files := disk.files.filter (fun file => file.1 != path) ++ [(path, text)] }

/-- The disk with a file of a name in a directory. A name that stands for a directory, or is that
of one, is refused, and so is one that holds a null character or is too long. -/
def write (disk : Disk) (directory : List String) (name text : String) : Except Error Disk :=
  if name = "" ∨ name = ".." ∨ disk.hasDirectory (directory ++ [name]) then
    .error (.defect .isDirectory)
  else if name.toList.contains '\x00' then .error (.defect .badValue)
  else if isLongName name || isLongPath (directory ++ [name]) then .error (.defect .longName)
  else .ok (disk.putFile (directory ++ [name]) text)

end Disk

namespace Export

/-- A file that was written: its name and its path. -/
structure Entry where
  name : String
  path : List String
deriving DecidableEq, Repr

/-- Writes files into a directory, in order. -/
def writeAll (disk : Disk) (directory : List String) :
    List (String × String) → Disk × Except Error (List Entry)
  | [] => (disk, .ok [])
  | (name, text) :: rest =>
    let base := Path.base name
    match disk.write directory base text with
    | .error e => (disk, .error e)
    | .ok disk =>
      match writeAll disk directory rest with
      | (disk, .ok others) => (disk, .ok (⟨base, directory ++ [base]⟩ :: others))
      | (disk, .error e) => (disk, .error e)

/-- Writes files into a directory, which is made if it is not there. -/
def write (disk : Disk) (directory : List String) (files : Table String) :
    Disk × Except Error (List Entry) :=
  match disk.makeDirectory directory with
  | (disk, .error e) => (disk, .error e)
  | (disk, .ok _) => writeAll disk directory files

/-- The directory that a request names, which must be the export root or lie below it. -/
def target (root : List String) (directory : String) : Except Error (List String) :=
  if directory.toList.contains '\x00' then .error (.defect .badValue)
  else
    let resolved := Path.resolve root directory
    if Path.isWithin resolved root then .ok resolved
    else .error (.invalid (.outsideRoot directory))

end Export

end BlockDiagram

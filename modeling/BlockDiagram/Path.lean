import BlockDiagram.Text.Split

/-!
# Paths

A path is a text with slashes; empty segments and single dots mean nothing. An absolute path is the
list of its segments below the root of the file system.

* `Path.base`: the last segment of a path.
* `Path.resolve`: where a path leads from a directory, with every `..` one step up.
-/

namespace BlockDiagram.Path

/-- The segments of a path that mean something. -/
def parts (path : String) : List String :=
  (Text.splitAt '/' path).filter fun part => part != "" && part != "."

/-- The last segment of a path; empty when there is none. -/
def base (path : String) : String := (parts path).getLastD ""

/-- Whether a path starts at the root of the file system. -/
def isAbsolute (path : String) : Bool := "/".toList.isPrefixOf path.toList

/-- Where segments lead from a directory. A step up from the root stays there. -/
def walk (directory : List String) : List String → List String
  | [] => directory
  | ".." :: rest => walk directory.dropLast rest
  | part :: rest => walk (directory ++ [part]) rest

def resolve (directory : List String) (path : String) : List String :=
  walk (if isAbsolute path then [] else directory) (parts path)

/-- Whether a directory is another one or lies below it. -/
def isWithin (directory root : List String) : Bool := root.isPrefixOf directory

def render (path : List String) : String := "/" ++ Text.join "/" path

end BlockDiagram.Path

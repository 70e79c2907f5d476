/-
A tree of files. A path leads from the root down segment by segment, and every segment but the last
must lead to a directory; `..` leads up, and an empty segment or `.` stays, which only a directory
allows.
-/
import TypedTemplate.Files

namespace TypedTemplate

/-- The files of a tree by the names that lead to them. A file that holds no text has none. `base` is a
directory that is there even without files. -/
structure FileTree where
  base : List String
  files : List (List String × Option String)

namespace FileTree

/-- The names in a path, from the root on. -/
def namesOf (path : String) : List String :=
  (Path.components path).filterMap fun
    | .name text => some text
    | _ => none

/-- The tree of files given by paths below a directory. -/
def ofFiles (base : String) (files : List (String × Option String)) : FileTree where
  base := namesOf base
  files := files.map fun (path, text) => (namesOf (Path.join base path), text)

/-- What is at the end of a path. -/
inductive Node where
  | file (text : Option String)
  | directory (names : List String)

/-- Whether a directory is there. -/
def hasDirectory (t : FileTree) (names : List String) : Bool :=
  names.isPrefixOf t.base || t.files.any fun f => names.isPrefixOf f.1 && names != f.1

/-- What some names lead to. -/
def nodeAt? (t : FileTree) (names : List String) : Option Node :=
  match t.files.find? (·.1 == names) with
  | some f => some (.file f.2)
  | none => if t.hasDirectory names then some (.directory names) else none

/-- Where a segment leads from a directory. -/
def step? (t : FileTree) (names : List String) (segment : List Char) : Option Node :=
  if Path.isIdle segment then some (.directory names)
  else if segment = ['.', '.'] then some (.directory names.dropLast)
  else t.nodeAt? (names ++ [String.ofList segment])

/-- Where segments lead. -/
def walk? (t : FileTree) : Node → List (List Char) → Option Node
  | node, [] => some node
  | .directory names, s :: rest => (t.step? names s).bind fun node => t.walk? node rest
  | .file _, _ :: _ => none

/-- What is at the end of a path, read from the root. -/
def node? (t : FileTree) (path : String) : Option Node :=
  t.walk? (.directory []) (path.toList.splitOn '/')

def present (t : FileTree) (path : String) : Bool := (t.node? path).isSome

def hasFile (t : FileTree) (path : String) : Bool :=
  match t.node? path with
  | some (.file _) => true
  | _ => false

/-- The text of a file. -/
def read? (t : FileTree) (path : String) : Option String :=
  match t.node? path with
  | some (.file text) => text
  | _ => none

/-- The files below a path, by the paths from there. A file is itself what is below it. -/
def below (t : FileTree) (path : String) : List String :=
  match t.node? path with
  | some (.directory names) =>
    (t.files.filter fun f => names.isPrefixOf f.1).map fun f =>
      "/".intercalate (f.1.drop names.length)
  | some (.file _) => [""]
  | none => []

/-- The files of a tree as seen from a directory. -/
def seenFrom (t : FileTree) (root : String) : Files where
  present path := t.hasFile (Path.join root path)
  read? path := t.read? (Path.join root path)

end FileTree

end TypedTemplate

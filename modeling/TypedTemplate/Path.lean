/-
Paths of files as texts. A path is read component by component: repeated and trailing separators and
inner `.` components do not count, so that different texts can be one path.
-/

namespace TypedTemplate.Path

/-- A component of a path, in the order in which components compare. -/
inductive Component where
  | root
  | here
  | up
  | name (text : String)
  deriving Repr, DecidableEq, Inhabited

/-- The root, or a `.` that starts a path, and the segments after it. -/
def segments (path : String) : String × List (List Char) :=
  match path.toList with
  | '/' :: rest => ("/", rest.splitOn '/')
  | ['.'] => (".", [])
  | '.' :: '/' :: rest => (".", [] :: rest.splitOn '/')
  | cs => ("", cs.splitOn '/')

/-- Whether a segment is no component. -/
def isIdle (segment : List Char) : Bool := segment.isEmpty || segment == ['.']

def componentOf (segment : List Char) : Component :=
  if segment = ['.', '.'] then .up else .name (String.ofList segment)

/-- The components of a path. -/
def components (path : String) : List Component :=
  let (lead, body) := segments path
  let first :=
    match lead with
    | "/" => [Component.root]
    | "." => [Component.here]
    | _ => []
  first ++ (body.filter (!isIdle ·)).map componentOf

/-- Whether two texts are one path. -/
def same (p q : String) : Bool := components p == components q

/-- Where a component stands in the order of components. -/
def Component.rank : Component → Nat
  | .root => 0
  | .here => 1
  | .up => 2
  | .name _ => 3

def Component.less : Component → Component → Bool
  | .name a, .name b => decide (a < b)
  | a, b => a.rank < b.rank

/-- The order of paths, component by component. -/
def lessComponents : List Component → List Component → Bool
  | _, [] => false
  | [], _ :: _ => true
  | a :: as, b :: bs => a.less b || (a == b && lessComponents as bs)

def less (p q : String) : Bool := lessComponents (components p) (components q)

/-- Segments with separators between them. -/
def joinSegments : List (List Char) → List Char
  | [] => []
  | [s] => s
  | s :: rest => s ++ '/' :: joinSegments rest

/-- A path without its last component. -/
def parent? (path : String) : Option String :=
  let (lead, body) := segments path
  match body.reverse.dropWhile isIdle with
  | [] => if lead = "." then some "" else none
  | _ :: rest => some (lead ++ String.ofList (joinSegments (rest.dropWhile isIdle).reverse))

/-- The last component, if it is a name. -/
def fileName? (path : String) : Option String :=
  match (components path).getLast? with
  | some (.name text) => some text
  | _ => none

/-- A name before and after its last point; a point that starts it does not count. -/
def splitName (name : String) : String × Option String :=
  let cs := name.toList
  let after := cs.reverse.takeWhile (· != '.')
  let before := (cs.reverse.drop (after.length + 1)).reverse
  if after.length = cs.length ∨ before.isEmpty then (name, none)
  else (String.ofList before, some (String.ofList after.reverse))

/-- The name of a file without its extension. -/
def fileStem? (path : String) : Option String := (fileName? path).map (splitName · |>.1)

/-- The extension of a file, without its point. -/
def extension? (path : String) : Option String := (fileName? path).bind (splitName · |>.2)

def isAbsolute (path : String) : Bool := path.toList.head? == some '/'

/-- A path taken from a directory; an absolute one stands for itself. -/
def join (base path : String) : String :=
  if isAbsolute path then path
  else
    match base.toList.getLast? with
    | none | some '/' => base ++ path
    | some _ => base ++ "/" ++ path

/-- A path with another extension; one that does not end in a name stays as it is. -/
def withExtension (path ext : String) : String :=
  let (lead, body) := segments path
  match fileStem? path, body.reverse.dropWhile isIdle with
  | some stem, _ :: rest =>
    let dir := if rest.isEmpty then [] else joinSegments rest.reverse ++ ['/']
    lead ++ String.ofList dir ++ stem ++ "." ++ ext
  | _, _ => path

/-- Segments from the component after the first `n` on. -/
def dropComponents : Nat → List (List Char) → List (List Char)
  | _, [] => []
  | 0, s :: rest => if isIdle s then dropComponents 0 rest else s :: rest
  | n + 1, s :: rest => dropComponents (if isIdle s then n + 1 else n) rest

/-- A path taken from a directory that it starts with. -/
def stripStart? (path base : String) : Option String :=
  let dir := components base
  if dir.isEmpty then some path
  else if dir.isPrefixOf (components path) then
    let (lead, body) := segments path
    let rest := dropComponents (if lead.isEmpty then dir.length else dir.length - 1) body
    some (String.ofList (joinSegments (rest.reverse.dropWhile isIdle).reverse))
  else none

end TypedTemplate.Path

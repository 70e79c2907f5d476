/-
The settings of a project: its environment and the files that are left out. They stand in a file that
is JSON with comments.
-/
import TypedTemplate.Environment
import TypedTemplate.FileTree

namespace TypedTemplate

/-! ## Comments -/

namespace Comment

/-- What the next character is a part of. -/
inductive Mode where
  | plain
  | string
  | line
  | block
  deriving Repr, DecidableEq

/-- Characters without their comments. A line comment ends before the line break, which stays. -/
def strip : Mode → List Char → List Char
  | _, [] => []
  | .plain, '/' :: '/' :: rest => strip .line rest
  | .plain, '/' :: '*' :: rest => strip .block rest
  | .plain, c :: rest => c :: strip (if c = '"' then .string else .plain) rest
  | .string, '\\' :: c :: rest => '\\' :: c :: strip .string rest
  | .string, c :: rest => c :: strip (if c = '"' then .plain else .string) rest
  | .line, c :: rest => if c = '\n' then '\n' :: strip .plain rest else strip .line rest
  | .block, '*' :: '/' :: rest => strip .plain rest
  | .block, _ :: rest => strip .block rest

/-- A text without the comments outside of its strings. -/
def remove (text : String) : String := String.ofList (strip .plain text.toList)

end Comment

/-! ## Projects -/

structure Project where
  /-- The file that the settings come from. -/
  path : Option String := none
  environment : Environment := .ember
  /-- Patterns of files that are left out. -/
  exclude : List String := []

/-- Why settings cannot be used. -/
inductive ProjectError where
  | unreadable (path : String)
  | malformed (path : String)
  deriving Repr, DecidableEq

def ProjectError.message : ProjectError → String
  | .unreadable path => "failed to read " ++ path
  | .malformed path => "failed to parse " ++ path

namespace Project

/-- The files that may hold the settings; the first one that is there counts. -/
def settingsFiles : List String := ["glint.config.json", ".glintrc.json"]

/-- The settings in a text: an environment, and the patterns beside it. -/
def parse? (path text : String) : Option Project := do
  let json ← Json.parse? (Comment.remove text)
  let fields ← Json.openRecord? ("exclude" :: Environment.fields) json
  some
    { path := some path
      environment := ← Environment.ofFields? fields
      exclude := ← Json.fieldOr? fields "exclude" [] (Json.asList? Json.asString?) }

/-- The settings in a file. -/
def read (tree : FileTree) (path : String) : Except ProjectError Project :=
  match tree.read? path with
  | none => .error (.unreadable path)
  | some text =>
    match parse? path text with
    | none => .error (.malformed path)
    | some project => .ok project

/-- The settings of a directory, with a warning if they cannot be used and the defaults stand in. A
file that is asked for must be usable. -/
def load (tree : FileTree) (root : String) (asked : Option String) :
    Except ProjectError (Project × List ProjectError) :=
  match asked with
  | some path => do return (← read tree (Path.join root path), [])
  | none =>
    match (settingsFiles.map (Path.join root)).find? tree.present with
    | none => .ok ({}, [])
    | some path =>
      match read tree path with
      | .ok project => .ok (project, [])
      | .error e => .ok ({}, [e])

/-- The extensions of scripts that may hold templates. -/
def embeddingExtensions : List String := [".ts", ".gts", ".js", ".gjs"]

/-- The extensions of the files that can be a part of a module with templates. -/
def extensions (p : Project) : List String :=
  let env := p.environment
  let embedding :=
    if env.native.isSome || !env.tags.keys.isEmpty then embeddingExtensions else []
  let companion :=
    match env.companion with
    | some rules => rules.scriptExtensions ++ [rules.templateExtension]
    | none => []
  (embedding ++ companion).foldl (fun seen e => if seen.contains e then seen else seen ++ [e]) []

end Project

end TypedTemplate

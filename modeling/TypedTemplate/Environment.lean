/-
Environments: which kinds of templates the modules of a project hold, and how each kind is compiled.
An environment is read from JSON and written back to it; what it leaves out has a default.
-/
import TypedTemplate.Json.Decode
import TypedTemplate.Json.Reader
import TypedTemplate.SpecialForm

namespace TypedTemplate

/-- How one kind of template is compiled. -/
structure Dialect where
  /-- The module that declares what generated code calls. -/
  typesModule : String
  forms : Table SpecialForm := .empty
  /-- The names that are globals; without a list all unbound names are. -/
  globals : Option (List String) := none
  /-- Import source, exported name and form, for forms that have to be imported. -/
  formImports : Table (Table SpecialForm) := .empty

/-- Templates in files of their own next to a script. -/
structure CompanionRules where
  dialect : Dialect
  templateExtension : String := ".hbs"
  /-- Extensions of scripts, those that are looked for first coming first. -/
  scriptExtensions : List String := [".ts", ".gts", ".js", ".gjs"]
  /-- Whether a directory can hold a script `component` and a template `template`. -/
  podLayout : Bool := true
  /-- The directory of templates that stand apart from their scripts. -/
  classicTemplatesDir : Option String := none

/-- The kinds of templates of a project. -/
structure Environment where
  /-- Import source, tag and dialect of tagged literals. -/
  tags : Table (Table Dialect) := .empty
  /-- The dialect of native template elements, if there are any. -/
  native : Option Dialect := none
  companion : Option CompanionRules := none

/-! ## From JSON -/

def SpecialForm.ofJson? : Json → Option SpecialForm := Json.asName? SpecialForm.ofName?

def Dialect.fields : List String := ["typesModule", "specialForms", "globals", "specialFormImports"]

/-- A dialect by the fields of a record. -/
def Dialect.ofFields? (fields : List (String × Json)) : Option Dialect := do
  some
    { typesModule := ← Json.field? fields "typesModule" Json.asString?
      forms := ← Json.fieldOr? fields "specialForms" .empty (Json.asTable? SpecialForm.ofJson?)
      globals := ← Json.fieldOr? fields "globals" none (Json.asOption? (Json.asList? Json.asString?))
      formImports := ← Json.fieldOr? fields "specialFormImports" .empty
        (Json.asTable? (Json.asTable? SpecialForm.ofJson?)) }

def Dialect.ofJson? (j : Json) : Option Dialect :=
  (Json.record? Dialect.fields j).bind Dialect.ofFields?

def CompanionRules.fields : List String :=
  ["templateExtension", "scriptExtensions", "podLayout", "classicTemplatesDir"]

def CompanionRules.ofJson? (j : Json) : Option CompanionRules := do
  let fields ← Json.openRecord? (Dialect.fields ++ CompanionRules.fields) j
  some
    { dialect := ← Dialect.ofFields? fields
      templateExtension := ← Json.fieldOr? fields "templateExtension" ".hbs" Json.asString?
      scriptExtensions := ← Json.fieldOr? fields "scriptExtensions" [".ts", ".gts", ".js", ".gjs"]
        (Json.asList? Json.asString?)
      podLayout := ← Json.fieldOr? fields "podLayout" true Json.asBool?
      classicTemplatesDir := ← Json.fieldOr? fields "classicTemplatesDir" none
        (Json.asOption? Json.asString?) }

namespace Environment

def fields : List String := ["tags", "nativeTemplate", "companion"]

/-- An environment by the fields of a record. -/
def ofFields? (fields : List (String × Json)) : Option Environment := do
  some
    { tags := ← Json.fieldOr? fields "tags" .empty (Json.asTable? (Json.asTable? Dialect.ofJson?))
      native := ← Json.fieldOr? fields "nativeTemplate" none (Json.asOption? Dialect.ofJson?)
      companion := ← Json.fieldOr? fields "companion" none (Json.asOption? CompanionRules.ofJson?) }

def ofJson? (j : Json) : Option Environment := (Json.record? fields j).bind ofFields?

/-- The environment that a JSON text describes. -/
def parse? (text : String) : Option Environment := (Json.parse? text).bind ofJson?

end Environment

/-! ## To JSON -/

def Table.toJson {α : Type} (f : α → Json) (t : Table α) : Json :=
  .object (t.entries.map fun (k, a) => (k, f a))

def SpecialForm.toJson (f : SpecialForm) : Json := .string f.name

def Json.texts (xs : List String) : Json := .array (xs.map Json.string)

def Dialect.entries (d : Dialect) : List (String × Json) :=
  [("typesModule", .string d.typesModule), ("specialForms", d.forms.toJson SpecialForm.toJson),
    ("globals", Json.ofOption Json.texts d.globals),
    ("specialFormImports", d.formImports.toJson (Table.toJson SpecialForm.toJson))]

def Dialect.toJson (d : Dialect) : Json := .object d.entries

def CompanionRules.toJson (r : CompanionRules) : Json :=
  .object (r.dialect.entries ++
    [("templateExtension", .string r.templateExtension),
      ("scriptExtensions", Json.texts r.scriptExtensions), ("podLayout", .bool r.podLayout),
      ("classicTemplatesDir", Json.ofOption Json.string r.classicTemplatesDir)])

namespace Environment

def toJson (e : Environment) : Json :=
  .object [("tags", e.tags.toJson (Table.toJson Dialect.toJson)),
    ("nativeTemplate", Json.ofOption Dialect.toJson e.native),
    ("companion", Json.ofOption CompanionRules.toJson e.companion)]

/-! ## Queries -/

/-- The dialect of a tag by the module it comes from and its name there. -/
def tag? (e : Environment) (source name : String) : Option Dialect :=
  (e.tags.get? source).bind (·.get? name)

/-- The modules that tags come from. -/
def tagSources (e : Environment) : List String := e.tags.keys

/-- Whether a text mentions the source of a tag. -/
def mentionsTag (e : Environment) (contents : String) : Bool :=
  e.tagSources.any fun source => Text.occursIn source.toList contents.toList

/-- Whether a text can hold a template. A text that cannot has none. -/
def mayEmbed (e : Environment) (contents : String) : Bool :=
  e.mentionsTag contents ||
    (e.native.isSome && Text.occursIn "<template".toList contents.toList)

/-! ## The default -/

def emberGlobals : List String :=
  ["action", "component", "debugger", "each", "each-in", "has-block", "has-block-params", "helper",
    "if", "in-element", "let", "log", "modifier", "mount", "mut", "outlet", "unbound", "unless",
    "with", "yield"]

def emberForms : Table SpecialForm :=
  .ofEntries [("if", .ifElse), ("unless", .ifNot), ("yield", .yield), ("component", .bindInvokable),
    ("helper", .bindInvokable), ("modifier", .bindInvokable)]

/-- Templates whose names are looked up by the framework. -/
def emberLoose : Dialect :=
  { typesModule := "@glint/environment-ember-loose/-private/dsl"
    forms := emberForms
    globals := some emberGlobals }

/-- Templates whose names are imported. -/
def emberNative : Dialect :=
  { typesModule := "@glint/environment-ember-template-imports/-private/dsl"
    forms := emberForms
    globals := some emberGlobals
    formImports := .ofEntries
      [("@ember/helper", .ofEntries [("array", .array), ("hash", .object)])] }

/-- The environment of a project that says nothing of its own. -/
def ember : Environment :=
  { tags := .ofEntries [("ember-cli-htmlbars", .ofEntries [("hbs", emberLoose)])]
    native := some emberNative
    companion := some { dialect := emberLoose, classicTemplatesDir := some "app/templates" } }

end Environment

end TypedTemplate

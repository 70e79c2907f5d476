/-
Statements in generated code. A statement starts on a line of its own at the depth it is given; what a
block binds is in scope in its body and nowhere else, so the code of a statement depends on the blocks
around it and not on its siblings.
-/
import TypedTemplate.Emit.Call

namespace TypedTemplate.Emit

open Template

/-- The end of a line and the indentation of the next. -/
def line (depth : Nat) : Piece := .text ("\n" ++ String.join (List.replicate depth "  "))

/-! ## Comments -/

/-- The first node after a comment that a directive can apply to. -/
def nextSignificant (statements : List Statement) : Option Span :=
  statements.findSome? fun
    | .text t => if t.isBlank then none else some t.span
    | .comment _ | .mustacheComment _ => none
    | .mustache m => some m.span
    | .block b => some b.span
    | .element e => some e.span

/-- A comment, which may be a directive for the node at `next`; without one it applies to the place
after the comment. -/
def comment (c : Comment) (next : Option Span) : Draft :=
  match Recognized.ofComment c.value with
  | .remark => []
  | .unknown keyword => [.issue (.unknownDirective keyword) c.span]
  | .directive .noCheck => [.directive .noCheck ⟨0, c.span.stop⟩ none]
  | .directive kind => [.directive kind c.span (some (next.getD (.empty c.span.stop)))]

/-! ## Mustaches -/

/-- The mention of a callee that was imported, on a line before the form. -/
def mention (depth : Nat) (use : FormUse) (callee : Draft) : Draft :=
  if use.imported then
    [.text "__glintDSL__.noop("] ++ callee ++ [.text ");", line depth]
  else []

/-- The block that a yield goes to, by its argument `to`. -/
def yieldTarget (use : FormUse) (pairs : List Pair) : Draft :=
  match pairs.find? (·.key.text == "to") with
  | none => [.text "\"default\""]
  | some pair =>
    match pair.value with
    | .literal (.string name) span =>
      Draft.node "Literal" span [.text (Text.quoted (if name = "inverse" then "else" else name))]
    | other => [.issue (.form use.name .computedBlockName) other.span, .text "\"default\""]

/-- A yield as a statement. -/
def yieldStatement (b : Bindings) (depth : Nat) (use : FormUse) (c : Call) : Draft :=
  Draft.node "MustacheStatement" c.span <|
    mention depth use (expr b c.callee) ++
    [.text "__glintDSL__.yieldToBlock(__glintRef__, "] ++ yieldTarget use c.hash.pairs ++
    [.text ")("] ++ Draft.separated ", " (exprs b c.params) ++ [.text ");"]

/-- A mustache that stands between other content. -/
def mustacheStatement (b : Bindings) (depth : Nat) (m : Mustache) : Draft :=
  match b.formOf? m.call.callee with
  | some ⟨name, .yield, imported⟩ => yieldStatement b depth ⟨name, .yield, imported⟩ m.call
  | _ =>
    Draft.node "MustacheStatement" m.span <|
      [.text "__glintDSL__.emitContent("] ++ mustacheValue b false m ++ [.text ");"]

/-! ## Opening tags -/

def concatPart (b : Bindings) : ConcatPart → Draft
  | .text t => [.text (String.ofList (templateLiteralText t.chars.toList))]
  | .mustache m =>
    [.text "$\x7b"] ++ Draft.node "MustacheStatement" m.span (mustacheValue b false m) ++
      [.text "\x7d"]

def attrValue (b : Bindings) (asArgument : Bool) : AttrValue → Draft
  | .text t => Draft.node "TextNode" t.span [.text (Text.quoted t.chars)]
  | .mustache m => Draft.node "MustacheStatement" m.span (mustacheValue b asArgument m)
  | .concat parts span =>
    Draft.node "ConcatStatement" span <|
      [.text "`"] ++ parts.flatMap (concatPart b) ++ [.text "`"]

/-- An attribute as a property, with `name` as its key. -/
def attrProperty (b : Bindings) (asArgument : Bool) (name : Name) (a : Attribute) : Draft :=
  Draft.node "AttrNode" a.span <|
    objectKey name.text name.span ++ [.text ": "] ++ attrValue b asArgument a.value

/-- The name of an argument or of a named block, without its sigil. -/
def withoutSigil (name : Name) : Name :=
  ⟨String.ofList (name.text.toList.drop 1), ⟨name.span.start + 1, name.span.stop⟩⟩

/-- The arguments of a component. -/
def arguments (b : Bindings) (attributes : List Attribute) : Draft :=
  [.text "\x7b "] ++
    (attributes.filter (·.isArgument)).flatMap (fun a =>
      attrProperty b true (withoutSigil a.name) a ++ [.text ", "]) ++
    [.text "...__glintDSL__.NamedArgsMarker \x7d"]

/-- The attributes that the outside passes on. -/
def splattributes (depth : Nat) (a : Attribute) : Draft :=
  (if a.isValueless then [] else [.issue .splattributesValue a.span]) ++ [line depth] ++
    Draft.node "AttrNode" a.span
      [.text "__glintDSL__.applySplattributes(__glintRef__.element, __glintY__.element);"]

/-- Attributes of an element as properties of one object. -/
def attributeObject (b : Bindings) (depth : Nat) (attributes : List Attribute) : Draft :=
  if attributes.isEmpty then []
  else
    [line depth, .text "__glintDSL__.applyAttributes(__glintY__.element, \x7b"] ++
      attributes.flatMap (fun a =>
        [line (depth + 1)] ++ attrProperty b false a.name a ++ [.text ","]) ++
      [line depth, .text "\x7d);"]

def modifier (b : Bindings) (c : Call) : Draft :=
  let d := call b c
  match b.formOf? c.callee with
  | some use =>
    [.issue (.form use.name .asModifier) c.span] ++
      Draft.node "ElementModifierStatement" c.span ([.text "["] ++ d.args ++ [.text "];"])
  | none =>
    Draft.node "ElementModifierStatement" c.span <|
      [.text "__glintDSL__.applyModifier(__glintDSL__.resolve("] ++ d.callee ++
      [.text ")(__glintY__.element"] ++
      (if d.hasArguments then [.text ", "] ++ d.args else []) ++ [.text "));"]

/-- The comments of an opening tag, each for the attribute or modifier after it. -/
def tagComments : List TagPart → Draft
  | [] => []
  | .comment c :: rest =>
    let next := rest.findSome? fun
      | .comment _ => none
      | part => some part.span
    comment c next ++ tagComments rest
  | _ :: rest => tagComments rest

/-- What an element's opening tag does to it; the arguments of a component are not part of it. -/
structure OpenTag where
  parts : List TagPart
  splats : List Attribute
  attributes : List Attribute
  modifiers : List Call

def OpenTag.of (parts : List TagPart) (attributes : List Attribute) (modifiers : List Call)
    (component : Bool) : OpenTag where
  parts := parts
  splats := attributes.filter (·.isSplattributes)
  attributes := attributes.filter fun a => !a.isSplattributes && !(component && a.isArgument)
  modifiers := modifiers

/-- Whether anything is done to the element. -/
def OpenTag.isUsed (t : OpenTag) : Bool :=
  !t.splats.isEmpty || !t.attributes.isEmpty || !t.modifiers.isEmpty

def OpenTag.draft (b : Bindings) (depth : Nat) (t : OpenTag) : Draft :=
  tagComments t.parts ++ t.splats.flatMap (splattributes depth) ++
    attributeObject b depth t.attributes ++
    t.modifiers.flatMap fun m => line depth :: modifier b m

/-! ## Bodies -/

/-- The names that a body binds, as a pattern. -/
def paramPattern (checked : Bool) (params : List Name) : Draft :=
  [.text "const ["] ++
    Draft.separated ", " (params.map fun p =>
      (if checked && !isIdentifier p.text then [.issue (.invalidParam p.text) p.span] else []) ++
        localIdentifier p.text p.span) ++
    [.text "] = "]

/-- A body that takes its parameters from the block of that name; `name` is its key in code. -/
def blockContents (depth : Nat) (name : Draft) (params : List Name) (body : Draft) : Draft :=
  [line depth, .text "\x7b", line (depth + 1)] ++ paramPattern true params ++
    [.text "__glintY__.blockParams["] ++ name ++ [.text "];"] ++ Draft.within params body ++
    [line depth, .text "\x7d"]

/-- A body whose parameters can be anything. -/
def placeholderArm (depth : Nat) (params : List Name) (body : Draft) : Draft :=
  [line depth, .text "\x7b"] ++
    (if params.isEmpty then []
     else [line (depth + 1)] ++ paramPattern false params ++ [.text "[] as any[];"]) ++
    Draft.within params body ++ [line depth, .text "\x7d"]

/-- The one argument of a condition. -/
def condition (b : Bindings) (use : FormUse) (c : Call) : Draft :=
  match c.params, c.hash.pairs with
  | [value], [] => expr b value
  | _, _ => [.issue (.form use.name .notOneCondition) c.span, .text "undefined"]

/-- A condition with a body, and maybe another. -/
def ifBlock (b : Bindings) (depth : Nat) (use : FormUse) (c : Call) (body : Draft)
    (inverse : Option Draft) : Draft :=
  Draft.node "BlockStatement" c.span <|
    mention depth use (expr b c.callee) ++
    [.text (if use.form = .ifNot then "if (!(" else "if ((")] ++ condition b use c ++
    [.text ")) \x7b"] ++ body ++ [line depth, .text "\x7d"] ++
    match inverse with
    | none => []
    | some other => [.text " else \x7b"] ++ other ++ [line depth, .text "\x7d"]

/-- A block whose callee cannot be called: its arguments, and its bodies. -/
def placeholderBlock (b : Bindings) (depth : Nat) (c : Call) (arms : Draft) : Draft :=
  Draft.node "BlockStatement" c.span <|
    [.text "\x7b", line (depth + 1), .text "["] ++ (call b c).args ++ [.text "];"] ++ arms ++
    [line depth, .text "\x7d"]

/-- A block that calls a component. -/
def componentBlock (b : Bindings) (depth : Nat) (c : Call) (arms : Draft) : Draft :=
  Draft.node "BlockStatement" c.span <|
    [.text "\x7b", line (depth + 1), .text "const __glintY__ = __glintDSL__.emitComponent("] ++
    (call b c).resolve ++ [.text ");"] ++ arms ++ [line depth, .text "\x7d"]

/-! ## Elements -/

/-- Whether a tag calls a component: it starts with a capital letter or an at sign, has a point in it,
or its head is bound. -/
def isComponent (b : Bindings) (tag : String) : Bool :=
  let cs := tag.toList
  cs.head?.any (fun c => c.isUpper || c == '@') || cs.contains '.' || b.scope.binds tag

/-- The use of an element that nothing else is done to. -/
def bareUse (depth : Nat) : Draft := [line depth, .text "__glintY__;"]

/-- Whether children hold a named block. -/
def hasNamedBlock (children : List Statement) : Bool :=
  children.any fun
    | .element e => e.isNamedBlock
    | _ => false

/-- An element of the markup. -/
def plainElement (b : Bindings) (depth : Nat) (tag : Name) (span : Span) (t : OpenTag)
    (body : Draft) : Draft :=
  Draft.node "ElementNode" span <|
    [.text "\x7b", line (depth + 1), .text "const __glintY__ = __glintDSL__.emitElement("] ++
    quotedName tag.text tag.span ++ [.text ");"] ++ t.draft b (depth + 1) ++
    (if t.isUsed then [] else bareUse (depth + 1)) ++ body ++ [line depth, .text "\x7d"]

/-- A component with its arguments and, if it has any, its blocks. -/
def componentElement (b : Bindings) (depth : Nat) (tag : Name) (span : Span)
    (attributes : List Attribute) (t : OpenTag) (closeTag : Option Span) (blocks : Option Draft) :
    Draft :=
  Draft.node "ElementNode" span <|
    [.text "\x7b", line (depth + 1),
      .text "const __glintY__ = __glintDSL__.emitComponent(__glintDSL__.resolve("] ++
    tagPath b tag.text tag.span ++ [.text ")("] ++ arguments b attributes ++ [.text "));"] ++
    t.draft b (depth + 1) ++
    (match blocks with
     | some blocks => blocks
     | none => if t.isUsed then [] else bareUse (depth + 1)) ++
    (match closeTag with
     | some close => [line (depth + 1)] ++ tagPath b tag.text close ++ [.text ";"]
     | none => []) ++
    [line depth, .text "\x7d"]

/-- A named block outside a component. -/
def strayNamedBlock (depth : Nat) (span : Span) (body : Draft) : Draft :=
  [.issue .strayNamedBlock span] ++
    Draft.node "ElementNode" span ([.text "\x7b"] ++ body ++ [line depth, .text "\x7d"])

/-! ## Statements -/

mutual

/-- Statements one after another. -/
def statements (b : Bindings) (depth : Nat) : List Statement → Draft
  | [] => []
  | s :: rest => statement b depth (nextSignificant rest) s ++ statements b depth rest

/-- One statement; `next` is the node that a directive in it applies to. -/
def statement (b : Bindings) (depth : Nat) (next : Option Span) : Statement → Draft
  | .text t => [.mark .text t.span true []]
  | .comment _ => []
  | .mustacheComment c => comment c next
  | .mustache m => line depth :: mustacheStatement b depth m
  | .block ⟨c, ⟨body, params, _, _⟩, inverse, _, _⟩ =>
    match b.formOf? c.callee with
    | none =>
      line depth :: componentBlock b depth c
        (blockContents (depth + 1) [.text "\"default\""] params
          (statements (b.enter params) (depth + 2) body) ++ elseArm b (depth + 1) inverse)
    | some use =>
      if use.form = .ifElse ∨ use.form = .ifNot then
        line depth :: ifBlock b depth use c
          (Draft.within params (statements (b.enter params) (depth + 1) body))
          (elseBody b (depth + 1) inverse)
      else
        [line depth, .issue (.form use.name .asBlock) c.span] ++
          placeholderBlock b depth c
            (placeholderArm (depth + 1) params (statements (b.enter params) (depth + 2) body) ++
              placeholderElse b (depth + 1) inverse)
  | .element ⟨tag, attributes, modifiers, comments, params, children, selfClosing, closeTag, span⟩ =>
    let parts := Element.parts
      ⟨tag, attributes, modifiers, comments, params, children, selfClosing, closeTag, span⟩
    if tag.text.toList.head? == some ':' then
      line depth :: strayNamedBlock depth span (statements b (depth + 1) children)
    else if isComponent b tag.text then
      let blocks :=
        if children.isEmpty && params.isEmpty then none
        else if hasNamedBlock children then some (namedBlocks b (depth + 1) children)
        else some (blockContents (depth + 1) [.text "\"default\""] params
          (statements (b.enter params) (depth + 2) children))
      line depth :: componentElement b depth tag span attributes
        (.of parts attributes modifiers true) closeTag blocks
    else
      line depth :: plainElement b depth tag span (.of parts attributes modifiers false)
        (statements b (depth + 1) children)

/-- The other arm of a block that calls a component. -/
def elseArm (b : Bindings) (depth : Nat) : Option Arm → Draft
  | none => []
  | some ⟨body, params, _, _⟩ =>
    blockContents depth [.text "\"else\""] params (statements (b.enter params) (depth + 1) body)

/-- The other body of a condition. -/
def elseBody (b : Bindings) (depth : Nat) : Option Arm → Option Draft
  | none => none
  | some ⟨body, _, _, _⟩ => some (statements b depth body)

/-- The other arm of a block whose callee cannot be called. -/
def placeholderElse (b : Bindings) (depth : Nat) : Option Arm → Draft
  | none => []
  | some ⟨body, params, _, _⟩ =>
    placeholderArm depth params (statements (b.enter params) (depth + 1) body)

/-- The children of a component that has named blocks, which come with nothing but comments. -/
def namedBlocks (b : Bindings) (depth : Nat) : List Statement → Draft
  | [] => []
  | .element ⟨tag, _, _, _, params, children, _, _, span⟩ :: rest =>
    (if tag.text.toList.head? == some ':' then
      let name := withoutSigil tag
      Draft.node "ElementNode" span <|
        blockContents depth (quotedName name.text name.span) params
          (statements (b.enter params) (depth + 1) children)
     else [.issue .mixedNamedBlocks span]) ++ namedBlocks b depth rest
  | .mustacheComment c :: rest => comment c (nextSignificant rest) ++ namedBlocks b depth rest
  | .comment _ :: rest => namedBlocks b depth rest
  | .text t :: rest =>
    (if t.isBlank then [] else [.issue .mixedNamedBlocks t.span]) ++ namedBlocks b depth rest
  | .mustache m :: rest => .issue .mixedNamedBlocks m.span :: namedBlocks b depth rest
  | .block ⟨_, _, _, _, span⟩ :: rest => .issue .mixedNamedBlocks span :: namedBlocks b depth rest

end

end TypedTemplate.Emit

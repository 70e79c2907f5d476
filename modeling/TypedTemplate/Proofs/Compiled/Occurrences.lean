/-
What becomes of the paths of a template. Every path that a template without issues writes has a node of the
mapping, with its code; and where its head is bound by the parameters of a body, it is written as they are,
in the block that starts with their declaration.
-/
import TypedTemplate.Proofs.Compiled
import TypedTemplate.Proofs.Emit.Scoped
import TypedTemplate.Proofs.Template.Reader.Statement

namespace TypedTemplate

open Draft Template Mapping

theorem Text.size_pos {s : String} (h : s.toList ≠ []) : 0 < Text.size s := by
  obtain ⟨c, cs, hcs⟩ := List.exists_cons_of_ne_nil h
  have := c.utf8Size_pos
  rw [size_eq_byteLength, hcs, byteLength_cons]
  omega

namespace Emit

theorem size_localIdentifier_pos (name : String) (span : Span) : 0 < size (localIdentifier name span) := by
  rw [size_eq, localIdentifier_eq]
  exact Text.size_pos (localText_toList name).1

theorem size_pos_of_isIdentifier {name : String} (h : isIdentifier name = true) : 0 < Text.size name := by
  refine Text.size_pos fun hnil => ?_
  rw [isIdentifier, hnil] at h
  cases h

/-- A path has code. -/
theorem size_pathCode_pos (b : Bindings) (head : PathHead) (tail : List Name) :
    0 < size (pathCode b head tail) := by
  have htext {text : String} (h : 0 < Text.size text) (d : Draft) : 0 < size (.text text :: d) := by
    rw [size, lengthOf]
    omega
  cases head with
  | this span => cases tail <;> exact htext (by decide) _
  | arg name => exact htext (by decide) _
  | var name =>
    rw [pathCode, size_append, reference]
    split
    · exact Nat.add_pos_left (htext (by decide) _) _
    · exact Nat.add_pos_left (size_localIdentifier_pos _ _) _

/-- The name of a block parameter, after what is put before it. -/
theorem stands_localIdentifier {name : String} (h : isIdentifier name = true) (span : Span) :
    ∃ lead, localText name = lead ++ name ∧
      Stands (Draft.name name name span) lead (localIdentifier name span) := by
  unfold localText localIdentifier localName
  split
  · refine ⟨"__", rfl, ?_⟩
    have hstands := (Stands.refl (Draft.name name name span)).after [.text "__"]
    simpa [code, codeOf] using hstands
  · exact ⟨"", by simp, by simpa [h] using Stands.refl (Draft.name name name span)⟩

/-- A bound name is written as the parameter is. -/
theorem reference_of_binds {b : Bindings} {name : Name} (hname : isIdentifier name.text = true)
    (hbinds : b.scope.binds name.text = true) :
    reference b name = localIdentifier name.text name.span := by
  simp [reference, hname, hbinds]

end Emit

namespace Compiled

variable {embedding source : String} {content : Span} {o : CompileOptions}

/-- The nodes of a part of a template's code are nodes of the mapping. -/
theorem mem_nodes_of_stands (hslice : content.slice embedding = some source) {x : Draft} {before : String}
    (h : Stands x before (body o source)) (hx : 0 < size x) {n : Tree}
    (hn : n ∈ trees content.start (Text.size (header o) + Text.size before) x) :
    n ∈ (ofTemplate embedding content o).mapping.nodes := by
  obtain ⟨r, hr, hnr⟩ := h.mem_nodes hx hn
  rw [mapping_eq o hslice]
  refine Tree.mem_nodes.2 (.inr ⟨_, List.mem_singleton.2 rfl, ?_⟩)
  exact Tree.mem_nodes.2 (.inr ⟨r, hr, hnr⟩)

/-- The code of a part of a template, in the code of the template. -/
theorem slice_of_stands (hslice : content.slice embedding = some source) {x : Draft} {before : String}
    (h : Stands x before (body o source)) :
    (⟨Text.size (header o) + Text.size before, Text.size (header o) + Text.size before + size x⟩ : Span).slice
      (ofTemplate embedding content o).code = some (Draft.code x) := by
  obtain ⟨rest, hrest⟩ := h.code_eq
  refine Text.slice_eq_some_iff.2
    ⟨(header o).toList ++ before.toList, rest.toList ++ (footer o).toList, ?_, ?_, ?_⟩
  · simp [ofTemplate, hslice, hrest]
  · simp [Text.size_eq_byteLength]
  · rw [size_eq]

theorem issues_body (hslice : content.slice embedding = some source)
    (hissues : (ofTemplate embedding content o).issues = []) : Draft.issues (body o source) = [] := by
  simpa [ofTemplate, hslice] using hissues

/-- Where an occurrence that is written stands, in the blocks of the bodies around it. -/
theorem stands_of_mem {t : Template} (hslice : content.slice embedding = some source)
    (hparse : parse source = .ok t) (hissues : (ofTemplate embedding content o).issues = [])
    {u : Occurrence} (hu : u ∈ t.occurrences o.forms o.globals) (hwritten : u.place.written = true) :
    ∃ before blocks, Stands u.draft before (body o source) ∧ Code.openBlocks before.toList = some blocks ∧
      Shows (blocks.map Code.declared) u.place.binders := by
  have hbody : body o source = Emit.statements { forms := o.forms, globals := o.globals } 1 t.body := by
    rw [body, hparse]
  have hnone := issues_body hslice hissues
  rw [hbody] at hnone ⊢
  obtain ⟨before, names, added, hstands, hleads, hshows, hbinders, -⟩ :=
    Emit.writes_statements 1 { forms := o.forms, globals := o.globals } (parse_neat hparse) hu hwritten hnone
  obtain ⟨blocks, hblocks, rfl⟩ := hleads.openBlocks
  rw [List.append_nil] at hbinders
  exact ⟨before, blocks, hstands, hblocks, hbinders ▸ hshows⟩

/-- Of a template without issues, every path that is written, in whatever position, has a node of the
mapping with its span, and the code of that node is the code of the path. -/
theorem paths_have_nodes {t : Template} (hslice : content.slice embedding = some source)
    (hparse : parse source = .ok t) (hissues : (ofTemplate embedding content o).issues = []) :
    ∀ u ∈ t.occurrences o.forms o.globals, u.place.written = true →
      ∃ n ∈ (ofTemplate embedding content o).mapping.nodes, n.label = .node "PathExpression" ∧
        n.source = u.span.shift content.start ∧
          n.generated.slice (ofTemplate embedding content o).code = some (Draft.code u.draft) := by
  intro u hu hwritten
  obtain ⟨before, -, hstands, -⟩ := stands_of_mem hslice hparse hissues hu hwritten
  have hsize : size u.draft = size (Emit.pathCode u.place.bindings u.head u.tail) := by
    simp [Occurrence.draft, Draft.node, size, lengthOf]
  have hpos := Emit.size_pathCode_pos u.place.bindings u.head u.tail
  let n := Mark.tree ⟨.node "PathExpression", u.span, false, Emit.pathCode u.place.bindings u.head u.tail⟩
    content.start (Text.size (header o) + Text.size before)
  have hn : n ∈ trees content.start (Text.size (header o) + Text.size before) u.draft := by
    rw [Occurrence.draft, Draft.node, trees, treesOf_mark, if_pos (by simpa using hpos.ne')]
    exact List.mem_append_left _ (List.mem_singleton.2 rfl)
  refine ⟨n, mem_nodes_of_stands hslice hstands (by rw [hsize]; exact hpos) hn, rfl, rfl, ?_⟩
  have h := slice_of_stands hslice hstands
  rwa [hsize] at h

theorem paths_have_nodes_in_condition :
    ∃ t, parse "<A @b=\x7b\x7bif (c d) @e this.f g\x7d\x7d />" = .ok t ∧
      ((t.occurrences ⟨[("if", .ifElse)], by decide⟩ none).map fun u => (u.span, u.place.written)) =
        [(⟨1, 2⟩, true), (⟨12, 13⟩, true), (⟨14, 15⟩, true), (⟨17, 19⟩, true), (⟨20, 26⟩, true),
          (⟨27, 28⟩, false)] ∧
      ∀ u ∈ t.occurrences ⟨[("if", .ifElse)], by decide⟩ none, u.place.written = true →
        ∃ n ∈ (ofTemplate "<A @b=\x7b\x7bif (c d) @e this.f g\x7d\x7d />" ⟨0, 33⟩
            { file := "a.gts", typesModule := "t", forms := ⟨[("if", .ifElse)], by decide⟩ }).mapping.nodes,
          n.label = .node "PathExpression" ∧ n.source = u.span.shift 0 := by
  have hoccurrences : (parse "<A @b=\x7b\x7bif (c d) @e this.f g\x7d\x7d />").toOption.map (fun t =>
      (t.occurrences ⟨[("if", .ifElse)], by decide⟩ none).map fun u => (u.span, u.place.written)) =
      some [(⟨1, 2⟩, true), (⟨12, 13⟩, true), (⟨14, 15⟩, true), (⟨17, 19⟩, true), (⟨20, 26⟩, true),
        (⟨27, 28⟩, false)] := by decide +kernel
  have hslice : (⟨0, 33⟩ : Span).slice "<A @b=\x7b\x7bif (c d) @e this.f g\x7d\x7d />" =
      some "<A @b=\x7b\x7bif (c d) @e this.f g\x7d\x7d />" := by decide +kernel
  cases hparse : parse "<A @b=\x7b\x7bif (c d) @e this.f g\x7d\x7d />" with
  | error e =>
    rw [hparse] at hoccurrences
    cases hoccurrences
  | ok t =>
    rw [hparse] at hoccurrences
    refine ⟨t, rfl, Option.some.inj hoccurrences, fun u hu hwritten => ?_⟩
    obtain ⟨n, hn, hlabel, hsource, -⟩ := paths_have_nodes
      (o := { file := "a.gts", typesModule := "t", forms := ⟨[("if", .ifElse)], by decide⟩ })
      hslice hparse (by decide +kernel) u hu hwritten
    exact ⟨n, hn, hlabel, hsource⟩

/-- A fourth value of a condition is dropped without an issue. -/
theorem fourth_value_without_node :
    ((parse "\x7b\x7bif a b c d\x7d\x7d").toOption.map fun t =>
      (t.occurrences ⟨[("if", .ifElse)], by decide⟩ none).map (·.span)) =
        some [⟨5, 6⟩, ⟨7, 8⟩, ⟨9, 10⟩, ⟨11, 12⟩] ∧
    (ofTemplate "\x7b\x7bif a b c d\x7d\x7d" ⟨0, 14⟩
      { file := "a.gts", typesModule := "t", forms := ⟨[("if", .ifElse)], by decide⟩ }).issues.length = 0 ∧
    ∀ n ∈ (ofTemplate "\x7b\x7bif a b c d\x7d\x7d" ⟨0, 14⟩
        { file := "a.gts", typesModule := "t", forms := ⟨[("if", .ifElse)], by decide⟩ }).mapping.nodes,
      n.source ≠ ⟨11, 12⟩ := by
  decide +kernel

/-- Lexical scoping. In a template without issues let `x` be the head of a path that is written. The scope
binds `x` if a body around does, apart from those whose parameters are ignored. The path stands in blocks
that, from the innermost outwards, are those that the bodies around it start with the declaration of their
parameters, and blocks that declare nothing or an element. If a body declares `x`, the path is written as
the parameter is, and the block of the innermost one declares it, with no other declaration of that local
name in between unless an inner body declares another name that is written the same. -/
theorem bound_names_resolve {t : Template} (hslice : content.slice embedding = some source)
    (hparse : parse source = .ok t) (hissues : (ofTemplate embedding content o).issues = [])
    {u : Occurrence} (hu : u ∈ t.occurrences o.forms o.globals) (hwritten : u.place.written = true)
    {x : Name} (hx : u.head = .var x) :
    (u.place.bindings.scope.binds x.text = true ↔
      ∃ d ∈ u.place.binders, d.binding ≠ .ignored ∧ x.text ∈ d.names) ∧
    ∃ before after blocks, Draft.code (body o source) = before ++ Draft.code u.draft ++ after ∧
      Code.openBlocks before.toList = some blocks ∧
      Shows (blocks.map Code.declared) u.place.binders ∧
      ∀ inner d outer, u.place.binders = inner ++ d :: outer → d.binding = .declared → x.text ∈ d.names →
        (∃ rest, Draft.code u.draft = Emit.localText x.text ++ rest) ∧
        (∃ n ∈ (ofTemplate embedding content o).mapping.nodes, n.label = .name x.text ∧
          n.source = x.span.shift content.start ∧
          n.generated.stop = Text.size (header o ++ before ++ Emit.localText x.text)) ∧
        ∃ within block around, blocks = within ++ block :: around ∧
          Shows (within.map Code.declared) inner ∧ Code.declared block = d.locals ∧
          Shows (around.map Code.declared) outer ∧
          ((∀ e ∈ inner, e.binding = .declared → Emit.localText x.text ∉ e.locals) →
            Emit.localText x.text ≠ "__glintY__" →
              ∀ b ∈ within, Emit.localText x.text ∉ Code.declared b) := by
  obtain ⟨before, blocks, hstands, hblocks, hshows⟩ := stands_of_mem hslice hparse hissues hu hwritten
  obtain ⟨after, hafter⟩ := hstands.code_eq
  refine ⟨Place.binds_iff, before, after, blocks, hafter, hblocks, hshows, ?_⟩
  intro inner d outer hbinders hdeclared hd
  have hmem : d ∈ u.place.binders := by simp [hbinders]
  have hid := hshows.isIdentifier hmem hdeclared x.text hd
  have hbinds : u.place.bindings.scope.binds x.text = true :=
    Place.binds_iff.2 ⟨d, hmem, by simp [hdeclared], hd⟩
  have hdraft : u.draft = Draft.node "PathExpression" u.span
      (Emit.localIdentifier x.text x.span ++ u.tail.flatMap (Emit.property true)) := by
    rw [Occurrence.draft, hx, Emit.pathCode, Emit.reference_of_binds hid hbinds]
  refine ⟨?_, ?_, ?_⟩
  · refine ⟨Draft.code (u.tail.flatMap (Emit.property true)), ?_⟩
    rw [hdraft, Draft.node, Draft.code, codeOf, Draft.code, String.append_empty, code_append,
      Emit.localIdentifier_eq, Emit.localText]
  · obtain ⟨lead, hlead, hname⟩ := Emit.stands_localIdentifier hid x.span
    rw [hdraft] at hstands
    have hname := ((hname.left _).node "PathExpression" u.span).trans hstands
    have hsize : size (Draft.name x.text x.text x.span) = Text.size x.text := by
      simp [Draft.name, size, lengthOf]
    let n := Mark.tree ⟨.name x.text, x.span, true, [.text x.text]⟩ content.start
      (Text.size (header o) + Text.size (before ++ lead))
    have hn : n ∈ trees content.start (Text.size (header o) + Text.size (before ++ lead))
        (Draft.name x.text x.text x.span) := by
      rw [Draft.name, trees, treesOf_mark, if_pos (by simp)]
      exact List.mem_append_left _ (List.mem_singleton.2 rfl)
    refine ⟨n, mem_nodes_of_stands hslice hname ?_ hn, rfl, rfl, ?_⟩
    · rw [hsize]
      exact Emit.size_pos_of_isIdentifier hid
    · rw [hlead]
      simp [n, Mark.tree, Tree.generated, size, lengthOf, Nat.add_assoc]
  · obtain ⟨names, names', heq, hinner, houter⟩ := hshows.split hdeclared hbinders
    obtain ⟨within, rest, rfl, rfl, hrest⟩ := List.map_eq_append_iff.1 heq
    obtain ⟨block, around, rfl, hblock, rfl⟩ := List.map_eq_cons_iff.1 hrest
    refine ⟨within, block, around, rfl, hinner, hblock, houter, fun hother hname b hb => ?_⟩
    exact hinner.not_mem hname hother _ (List.mem_map_of_mem hb)

theorem bound_names_resolve_in_element :
    ∃ t u, parse "<A as |x|><p>\x7b\x7b#b as |y|\x7d\x7d\x7b\x7bx\x7d\x7d\x7b\x7b/b\x7d\x7d</p></A>" = .ok t ∧
      u ∈ t.occurrences .empty none ∧ u.head = .var ⟨"x", ⟨28, 29⟩⟩ ∧
      u.place.binders = [⟨.declared, [⟨"y", ⟨22, 23⟩⟩]⟩, ⟨.declared, [⟨"x", ⟨7, 8⟩⟩]⟩] ∧
      ∃ before after within block around,
        Draft.code (body { file := "a.gts", typesModule := "t" }
            "<A as |x|><p>\x7b\x7b#b as |y|\x7d\x7d\x7b\x7bx\x7d\x7d\x7b\x7b/b\x7d\x7d</p></A>") =
          before ++ Draft.code u.draft ++ after ∧
        Code.openBlocks before.toList = some (within ++ block :: around) ∧ Code.declared block = ["x"] ∧
        ∀ b ∈ within, "x" ∉ Code.declared b := by
  have hslice : (⟨0, 45⟩ : Span).slice
      "<A as |x|><p>\x7b\x7b#b as |y|\x7d\x7d\x7b\x7bx\x7d\x7d\x7b\x7b/b\x7d\x7d</p></A>" = some
      "<A as |x|><p>\x7b\x7b#b as |y|\x7d\x7d\x7b\x7bx\x7d\x7d\x7b\x7b/b\x7d\x7d</p></A>" := by
    decide +kernel
  have hthird : ((parse "<A as |x|><p>\x7b\x7b#b as |y|\x7d\x7d\x7b\x7bx\x7d\x7d\x7b\x7b/b\x7d\x7d</p></A>").toOption.bind
      fun t => (t.occurrences .empty none)[2]?).map (fun u => (u.head, u.place.binders, u.place.written)) =
      some (.var ⟨"x", ⟨28, 29⟩⟩, [⟨.declared, [⟨"y", ⟨22, 23⟩⟩]⟩, ⟨.declared, [⟨"x", ⟨7, 8⟩⟩]⟩], true) := by
    decide +kernel
  cases hparse : parse "<A as |x|><p>\x7b\x7b#b as |y|\x7d\x7d\x7b\x7bx\x7d\x7d\x7b\x7b/b\x7d\x7d</p></A>" with
  | error e =>
    rw [hparse] at hthird
    cases hthird
  | ok t =>
    rw [hparse] at hthird
    obtain ⟨u, hfound, hfields⟩ := Option.map_eq_some_iff.1 hthird
    have hu : u ∈ t.occurrences .empty none := List.mem_of_getElem? hfound
    simp only [Prod.mk.injEq] at hfields
    obtain ⟨hhead, hbinders, hwritten⟩ := hfields
    obtain ⟨-, before, after, blocks, hcode, hblocks, -, hdeclared⟩ := bound_names_resolve
      (o := { file := "a.gts", typesModule := "t" }) hslice hparse (by decide +kernel) hu hwritten hhead
    obtain ⟨-, -, within, block, around, rfl, -, hblock, -, hother⟩ :=
      hdeclared [⟨.declared, [⟨"y", ⟨22, 23⟩⟩]⟩] ⟨.declared, [⟨"x", ⟨7, 8⟩⟩]⟩ [] hbinders rfl (by decide)
    exact ⟨t, u, rfl, hu, hhead, hbinders, before, after, within, block, around, hcode, hblocks, hblock,
      hother (by decide) (by decide)⟩

/-- Nothing declares the parameter of a condition. -/
theorem condition_parameter_undeclared :
    Draft.code (body
        { file := "a.gts", typesModule := "t", forms := ⟨[("if", .ifElse)], by decide⟩ }
        "\x7b\x7b#if c as |x|\x7d\x7d\x7b\x7bx\x7d\x7d\x7b\x7b/if\x7d\x7d") =
      "\n  if ((__glintDSL__.Globals[\"c\"])) \x7b\n    __glintDSL__.emitContent(__glintDSL__.resolveOrReturn(" ++
        "x" ++ ")());\n  \x7d" ∧
    (Code.openBlocks ("\n  if ((__glintDSL__.Globals[\"c\"])) \x7b\n" ++
      "    __glintDSL__.emitContent(__glintDSL__.resolveOrReturn(").toList).map
        (fun blocks => blocks.map Code.declared) = some [[]] := by
  decide +kernel

end Compiled

end TypedTemplate

/-
Templates account for their text. Statements are read one after another, each up to where the next one starts, and
a list of them ends only at what ends the list at its place: at the end of the text, at a closing tag in an element
and at braces in a block. So what a list holds fills the text from the place where it starts to the place where it
ends, in elements, in the arms of blocks and in the template as a whole. Braces, tags and quotes have characters of
their own, so what stands between them starts after the construct does and stops before it.
-/
import TypedTemplate.Proofs.Template.Body
import TypedTemplate.Proofs.Template.Mentions
import TypedTemplate.Proofs.Template.Reader.Tag
import TypedTemplate.Template.Reader.Statement

namespace TypedTemplate.Template

open TypedTemplate.Span (InOrder Scattered Tile)

namespace Reader

open Lexer Text

variable {place : Place} {children : ReadChildren} {n : Nat}

/-! ## What is known -/

/-- The place after the first arm of a block. There is another arm if the braces there begin with `else`, and it is a
block of its own if an invocation follows the token that is taken for the word. -/
structure ArmEnds (source : String) (b : Block) (c : Cursor) : Prop where
  on : c.On source
  pos : c.pos = b.program.span.stop
  braces : c.startsWith "\x7b\x7b" = true
  curly : curlyAt c = .otherwise ∨ curlyAt c = .blockClose
  bare : b.inverse = none → curlyAt c ≠ .otherwise
  plain : ∀ arm ∈ b.inverse, arm.chained = false →
    (peek (next (skip .tilde (c.advance 2))).after).kind = .close ∨
      (peek (next (skip .tilde (c.advance 2))).after).kind = .tilde
  chained : ∀ arm ∈ b.inverse, arm.chained = true →
    ∃ found, readInvocationAt (next (skip .tilde (c.advance 2))).after = .ok found

/-- The first arms of all blocks in some statements, at any depth, have such a place after them. -/
def Divided (source : String) (ss : List Statement) : Prop :=
  ∀ (body : List Statement) (b : Block), IsBody ss body → .block b ∈ body → ∃ c, ArmEnds source b c

/-- The same for all blocks in a statement, itself included. -/
def DividedIn (source : String) : Statement → Prop
  | .block b => (∃ c, ArmEnds source b c) ∧ Divided source b.program.body ∧ ∀ arm ∈ b.inverse, Divided source arm.body
  | .element e => Divided source e.children
  | _ => True

variable {source : String} {c d : Cursor}

theorem divided_of_forall {ss : List Statement} (h : ∀ s ∈ ss, DividedIn source s) : Divided source ss := by
  intro body b hbody hb
  cases hbody with
  | self => exact (h _ hb).1
  | program hmem hbody => exact (h _ hmem).2.1 body b hbody hb
  | inverse hmem harm hbody => exact (h _ hmem).2.2 _ harm body b hbody hb
  | children hmem hbody => exact h _ hmem body b hbody hb

/-- What is known of statements that were read; `closed` says that something closes them. -/
structure Known (source : String) (closed : Bool) (ss : List Statement) : Prop where
  accounted : statementsAccounted source ss
  placed : statementsPlaced ss
  neat : statementsNeat closed ss
  opened : statementsOpened ss
  dividedIn : ∀ s ∈ ss, DividedIn source s

namespace Known

variable {closed : Bool} {s : Statement} {ss : List Statement}

theorem nil : Known source closed [] := ⟨trivial, trivial, trivial, trivial, List.forall_mem_nil _⟩

theorem single (haccounted : s.Accounted source) (hplaced : s.Placed) (hneat : s.Neat closed) (hopened : s.Opened)
    (hdivided : DividedIn source s) : Known source closed [s] :=
  ⟨⟨haccounted, trivial⟩, ⟨hplaced, trivial⟩, ⟨hneat, trivial⟩, ⟨hopened, trivial⟩,
    List.forall_mem_singleton.2 hdivided⟩

theorem cons (hs : Known source closed [s]) (h : Known source closed ss) : Known source closed (s :: ss) :=
  ⟨⟨hs.accounted.1, h.accounted⟩, ⟨hs.placed.1, h.placed⟩, ⟨hs.neat.1, h.neat⟩, ⟨hs.opened.1, h.opened⟩,
    List.forall_mem_cons.2 ⟨hs.dividedIn s List.mem_cons_self, h.dividedIn⟩⟩

theorem divided (h : Known source closed ss) : Divided source ss := divided_of_forall h.dividedIn

end Known

/-- An arm whose statements fill it. -/
structure ArmFilled (source : String) (a : Arm) : Prop where
  params : ∀ n ∈ a.params, n.Spelled source
  tiled : Tile a.span.start (a.body.map (·.span)) a.span.stop
  between : a.chained = false → a.Between source
  chained : a.chained = true → ∃ nested, a.body = [.block nested] ∧ nested.span = a.span
  known : Known source (!a.chained) a.body

/-! ## Lists of statements -/

/-- Where a list of statements can end. -/
def StopsAt : Place → Cursor → Prop
  | .root, c => c.rest = []
  | .element, c => c.rest = [] ∨ c.startsWith "</" = true
  | .block, c => c.rest = [] ∨
      c.startsWith "\x7b\x7b" = true ∧ (curlyAt c = .otherwise ∨ curlyAt c = .blockClose)

theorem stopsAt_end (place : Place) (h : c.rest = []) : StopsAt place c := by
  cases place with
  | root => exact h
  | element => exact .inl h
  | block => exact .inl h

/-- Statements that were read from a place on, with the place after them. -/
structure BodyAt (source : String) (place : Place) (c : Cursor) (ss : List Statement) (d : Cursor) : Prop where
  reaches : c.Reaches d
  tiled : Tile c.pos (ss.map (·.span)) d.pos
  known : Known source true ss
  stops : StopsAt place d

/-- A reader of statements, at places with at most `n` characters left. -/
def YieldsChildren (source : String) (n : Nat) (children : ReadChildren) : Prop :=
  ∀ (place : Place) {c : Cursor}, c.On source → c.rest.length ≤ n →
    YieldsAt source (BodyAt source place c) (children place c)

theorem BodyAt.nil (h : StopsAt place c) : BodyAt source place c [] c := ⟨.refl c, rfl, .nil, h⟩

/-- A statement that was read from a place on, with the place after it. -/
structure StatementAt (source : String) (c : Cursor) (s : Statement) (d : Cursor) : Prop extends
    c.Covers s.span d where
  known : Known source true [s]

theorem BodyAt.cons {e : Cursor} {s : Statement} {ss : List Statement} (hs : StatementAt source c s d)
    (h : BodyAt source place d ss e) : BodyAt source place c (s :: ss) e where
  reaches := hs.reaches.trans h.reaches
  tiled := hs.tile h.tiled
  known := hs.known.cons h.known
  stops := h.stops

theorem not_atEnd (h : ¬c.atEnd = true) : c.rest ≠ [] := by
  intro hnil
  rw [Cursor.atEnd, hnil] at h
  exact h rfl

/-! ## Blocks -/

/-- The statements between closing braces and the next opening ones. -/
theorem BodyAt.filled {b : Cursor} {body : List Statement} (h : BodyAt source .block c body d) (hb : b.On source)
    (hopen : b.Passes "\x7d\x7d" c) (hend : d.rest ≠ []) {params : List Name}
    (hparams : ∀ n ∈ params, n.Spelled source) :
    ArmFilled source ⟨body, params, false, ⟨c.pos, d.pos⟩⟩ := by
  have hd := hb.reaches (hopen.reaches.trans h.reaches)
  obtain ⟨hclose, -⟩ := h.stops.resolve_left hend
  refine ⟨hparams, h.tiled, fun _ => ⟨hb.slice_before hopen rfl, ?_⟩, by rintro ⟨⟩, h.known⟩
  exact hd.slice_after (Cursor.passes_of_startsWith hclose rfl) rfl

/-- The arms of a block that were read from a place on; the block itself starts at `start`. -/
structure ArmsAt (source : String) (start : Cursor) (i : Invocation) (c : Cursor) (b : Block) (d : Cursor) :
    Prop where
  reaches : c.Reaches d
  span : b.span = ⟨start.pos, d.pos⟩
  call : b.call = i.call b.span
  params : b.program.params = i.args.blockParams
  first : b.program.chained = false
  close : b.closeSpan = none
  filled : ∀ a ∈ b.program :: b.inverse.toList, ArmFilled source a
  parts : InOrder c.pos (b.program.body.map (·.span) ++ (b.inverse.map Arm.parts).getD []) d.pos
  braces : d.startsWith "\x7b\x7b" = true
  ends : ∃ after, ArmEnds source b after

/-- A block whose call stands between `lo` and `mid`, and its arms from there to `hi`. -/
theorem known_block {b : Block} {i : Invocation} {lo mid hi : Nat} {closed : Bool} (hspan : b.span.Cuts source)
    (hcall : b.call = i.call b.span) (hspelled : i.Spelled source) (hplaced : i.Placed lo mid)
    (hparams : b.program.params = i.args.blockParams) (hfirst : b.program.chained = false)
    (hfilled : ∀ a ∈ b.program :: b.inverse.toList, ArmFilled source a)
    (hparts : InOrder mid (b.program.body.map (·.span) ++ (b.inverse.map Arm.parts).getD []) hi)
    (hclose : ∀ s ∈ b.closeSpan, ∃ path, b.call.callee = .path path ∧ s.slice source = some path.written)
    (hends : ∃ after, ArmEnds source b after) (hlo : b.span.start < lo)
    (hhi : hi ≤ if closed then b.span.stop - 1 else b.span.stop) :
    Known source closed [.block b] := by
  have hprogram := hfilled _ List.mem_cons_self
  have hinverse : ∀ a ∈ b.inverse, ArmFilled source a :=
    fun a ha => hfilled a (List.mem_cons_of_mem _ (Option.mem_toList.2 ha))
  have hinset : b.Inset closed := by
    have hall := hparts.append (hplaced.parts_call b.span)
    refine InOrder.mono hlo hhi ?_
    simpa [Block.parts, Arm.parts, hcall, hparams] using hall
  have hstop : (if closed then b.span.stop - 1 else b.span.stop) ≤ b.span.stop := by split <;> omega
  have hbody := hprogram.known
  rw [hfirst] at hbody
  refine .single ?_ ?_ ?_ ?_ ⟨hends, hbody.divided, fun a ha => (hinverse a ha).known.divided⟩
  · refine (Statement.accounted_block source b).2 ⟨⟨hspan, ?_, fun a ha => (hfilled a ha).params,
      fun a ha => (hfilled a ha).tiled, fun a ha => (hfilled a ha).between, fun a ha => (hfilled a ha).chained, hclose⟩,
      hbody.accounted, fun a ha => (hinverse a ha).known.accounted⟩
    rw [hcall]
    exact hspelled.call hspan
  · refine (Statement.placed_block b).2 ⟨⟨?_, hinset.mono (Nat.le_succ _) hstop, ?_⟩, hbody.placed,
      fun a ha => (hinverse a ha).known.placed⟩
    · rw [hcall]
      rfl
    · rw [hcall]
      exact hplaced.inner b.span
  · refine (Statement.neat_block closed b).2 ⟨hinset, hbody.neat, fun a ha => ⟨(hinverse a ha).known.neat, fun h => ?_⟩⟩
    obtain ⟨nested, hnested, -⟩ := (hinverse a ha).chained h
    rw [hnested]
    rfl
  · exact (Statement.opened_block b).2 ⟨hbody.opened, fun a ha => (hinverse a ha).known.opened⟩

theorem readArms_yields {children : ReadChildren} {n : Nat} (hchildren : YieldsChildren source n children)
    (name : String) : ∀ {fuel : Nat} {start b : Cursor} {i : Invocation} {c : Cursor}, start.On source →
      start.Reaches b → b.Passes "\x7d\x7d" c → i.Spelled source → c.rest.length ≤ n → c.rest.length < fuel →
      YieldsAt source (ArmsAt source start i c) (readArms children name fuel start.pos i c)
  | 0, _, _, _, _, _, _, _, _, _, hfuel => absurd hfuel (Nat.not_lt_zero _)
  | fuel + 1, start, b, i, c, hs, hb, hopen, hi, hn, hfuel => by
    have hc := hb.trans hopen.reaches
    have hunclosed : (Span.mk start.pos c.pos).Cuts source := hs.cuts hc
    unfold readArms
    dsimp only
    refine (hchildren .block (hs.reaches hc) hn).bind fun body after hbody => ?_
    have hle := hbody.reaches.length_le
    dsimp only
    split
    · exact .throw hunclosed
    · rename_i hend
      have hprogram := hbody.filled (hs.reaches hb) hopen (not_atEnd hend) hi.blockParams
      have hafter := hs.reaches (hc.trans hbody.reaches)
      obtain ⟨hopens, hcurly⟩ := hbody.stops.resolve_left (not_atEnd hend)
      split
      · rename_i hother
        exact .pure ⟨hbody.reaches, rfl, rfl, rfl, rfl, rfl, List.forall_mem_singleton.2 hprogram,
          InOrder.append (Nat.le_refl _) hbody.tiled.inOrder, hopens, after, hafter, rfl, hopens, hcurly,
          fun _ => hother, by rintro _ ⟨⟩, by rintro _ ⟨⟩⟩
      · have hword := (reaches_skip .tilde (after.advance 2)).trans (reaches_after _)
        have hin := (after.reaches_advance 2).trans hword
        have hinside := hafter.reaches hin
        have hshort := hin.length_le
        split
        · rename_i hfollowing
          -- the other arm stands between braces as the first one does
          refine .after (close_yields hinside false) fun opened hopened => ?_
          obtain ⟨b', hb', hopened⟩ := hopened
          have hreach := hin.trans (hb'.trans hopened.reaches)
          have hless := hreach.length_le
          refine (hchildren .block (hafter.reaches hreach) (by omega)).bind fun other stop hother => ?_
          dsimp only
          split
          · exact .throw hunclosed
          · rename_i hend'
            have hinverse := hother.filled (hinside.reaches hb') hopened (not_atEnd hend') (List.forall_mem_nil _)
            split
            · exact .throw (curlySpan_cuts (hafter.reaches (hreach.trans hother.reaches)))
            · exact .pure ⟨hbody.reaches.trans (hreach.trans hother.reaches), rfl, rfl, rfl, rfl, rfl,
                List.forall_mem_cons.2 ⟨hprogram, List.forall_mem_singleton.2 hinverse⟩,
                (hother.tiled.inOrder.mono hreach.pos_le le_rfl).append hbody.tiled.inOrder,
                (hother.stops.resolve_left (not_atEnd hend')).1, after, hafter, rfl, hopens, hcurly, by rintro ⟨⟩,
                fun _ _ _ => hfollowing,
                by rintro _ ⟨⟩ ⟨⟩⟩
        · -- the other arm is a block that starts at the braces of the `else`
          refine (readInvocationAt_yields hinside).bind_ok fun chained after' hread hchained => ?_
          have hlt := hchained.length_lt
          refine .after (close_yields (hinside.reaches hchained.reaches) false) fun opened hopened => ?_
          obtain ⟨b', hb', hopened⟩ := hopened
          have hto := hin.trans (hchained.reaches.trans hb')
          have hless := (hb'.trans hopened.reaches).length_le
          refine (readArms_yields hchildren name hafter hto hopened hchained.spelled (by omega)
            (by omega)).bind fun nested stop hnested => ?_
          have hall := hto.trans (hopened.reaches.trans hnested.reaches)
          have hlength := hnested.reaches.length_le
          have hcovers : after.Covers nested.span stop := ⟨hall, by omega, hnested.span⟩
          -- the braces of the `else` open the block, and nothing closes it
          have hstart : nested.span.start < (next (skip .tilde (after.advance 2))).after.pos := by
            rw [hnested.span]
            exact (Cursor.advance_lt (not_atEnd hend) (by decide)).trans_le hword.pos_le
          have hknown : Known source false [.block nested] :=
            known_block (hafter.cuts_of_covers hcovers) hnested.call hchained.spelled
              (hchained.placed.mono le_rfl (hb'.trans hopened.reaches).pos_le) hnested.params hnested.first
              hnested.filled hnested.parts (by simp [hnested.close]) hnested.ends
              hstart (by rw [hnested.span]; exact le_rfl)
          exact .pure ⟨hbody.reaches.trans hall, rfl, rfl, rfl, rfl, rfl, List.forall_mem_cons.2 ⟨hprogram,
            List.forall_mem_singleton.2 ⟨List.forall_mem_nil _, hcovers.tile rfl, by rintro ⟨⟩,
              fun _ => ⟨nested, rfl, hnested.span⟩, hknown⟩⟩,
            hcovers.span_in.inOrder.append hbody.tiled.inOrder, hnested.braces,
            after, hafter, rfl, hopens, hcurly, by rintro ⟨⟩, by rintro _ ⟨⟩ ⟨⟩, fun _ _ _ => ⟨_, hread⟩⟩

theorem readBlockClose_yields (hc : c.On source) :
    YieldsAt source (fun found d => c.Reaches d ∧ c.pos < d.pos ∧ found.2.slice source = some found.1)
      (readBlockClose c) := by
  have hopen := (c.reaches_advance 2).trans (reaches_skip .tilde _)
  unfold readBlockClose
  refine (expect_yields (hc.reaches hopen) .slash).bind fun slash after h => ?_
  obtain ⟨-, -, rfl⟩ := h
  have hin := hopen.trans (reaches_after _)
  have hinside := hc.reaches hin
  refine (readExpr_yields hinside).bind fun value after hvalue => ?_
  dsimp only
  split
  · refine .after (close_yields (hinside.reaches hvalue.reaches) false) fun stop hstop => ?_
    obtain ⟨b, hb, hstop⟩ := hstop
    have hclose := hb.trans hstop.reaches
    have hlt := hvalue.reaches.pos_lt hvalue.length_lt
    exact .pure ⟨hin.trans (hvalue.reaches.trans hclose), hin.pos_le.trans_lt (hlt.trans_le hclose.pos_le),
      hvalue.spelled.whole⟩
  · exact .throw hvalue.cuts

theorem readClosing_yields (hc : c.On source) (name : String) :
    YieldsAt source (fun span d => c.Reaches d ∧ c.pos < d.pos ∧ span.slice source = some name)
      (readClosing name c) := by
  unfold readClosing
  refine (readBlockClose_yields hc).bind fun found after h => ?_
  obtain ⟨text, span⟩ := found
  dsimp only at h ⊢
  split
  · exact .throw ⟨_, h.2.2⟩
  · rename_i hname
    rw [not_not.1 hname] at h
    exact .pure h

theorem readBlock_yields (hchildren : YieldsChildren source n children) (hc : c.On source)
    (hn : c.rest.length ≤ n + 1) :
    YieldsAt source (fun b => StatementAt source c (.block b)) (readBlock children c) := by
  have hopen := (c.reaches_advance 2).trans (reaches_skip .tilde _)
  unfold readBlock
  refine (expect_yields (hc.reaches hopen) .hash).bind fun hash inside h => ?_
  obtain ⟨hkind, -, rfl⟩ := h
  have hlt := (next_length_lt hkind (by decide)).trans_le hopen.length_le
  have hin := hopen.trans (reaches_after _)
  refine (readInvocationAt_yields (hc.reaches hin)).bind fun i after hi => ?_
  have hafter := hin.trans hi.reaches
  refine .after (close_yields (hc.reaches hafter) false) fun opened hopened => ?_
  obtain ⟨b, hb, hopened⟩ := hopened
  have hto := hafter.trans hb
  have hless := (hi.reaches.trans (hb.trans hopened.reaches)).length_le
  dsimp only
  split
  · rename_i path hpath
    -- the arms are kept; the call, the span and what closes the block are exchanged
    refine (readArms_yields hchildren path.written hc hto hopened hi.spelled (by omega) (by omega)).bind
      fun block closing harms => ?_
    have hclosing := hto.trans (hopened.reaches.trans harms.reaches)
    refine (readClosing_yields (hc.reaches hclosing) path.written).bind fun span stop h => ?_
    obtain ⟨hstop, hlast, hspan⟩ := h
    have hall := hclosing.trans hstop
    have hends : ∃ after, ArmEnds source { block with
        call := i.call ⟨c.pos, stop.pos⟩, closeSpan := some span, span := ⟨c.pos, stop.pos⟩ } after := by
      obtain ⟨place, h⟩ := harms.ends
      exact ⟨place, h.on, h.pos, h.braces, h.curly, h.bare, h.plain, h.chained⟩
    have hshort : stop.rest.length < c.rest.length := by
      have := (harms.reaches.trans hstop).length_le
      omega
    refine .pure ⟨⟨hall, hshort, rfl⟩, known_block (i := i) (hc.cuts hall) rfl hi.spelled
      (hi.placed.mono le_rfl (hb.trans hopened.reaches).pos_le) harms.params harms.first harms.filled harms.parts ?_
      hends (hin.pos_lt hlt) (Nat.le_sub_one_of_lt hlast)⟩
    rintro s ⟨⟩
    exact ⟨path, hpath, hspan⟩
  · exact .throw (hi.spelled.callee.cuts source)

/-! ## Elements -/

theorem readCloseTag_yields (hc : c.On source) (hopen : c.startsWith "</" = true) (tag : String) :
    YieldsAt source (fun span d => c.Reaches d ∧ span.In c.pos (d.pos - 1) ∧ span.slice source = some tag ∧
      slice source c.pos span.start = some "</") (readCloseTag tag c) := by
  have hslash := Cursor.passes_of_startsWith hopen rfl
  have hname := (c.advance 2).passes_skipWhile isCloseTagChar
  have hblank := Cursor.reaches_skipWhile isBlank ((c.advance 2).skipWhile isCloseTagChar)
  have hnamed := hc.reaches hslash.reaches
  have hbracket := hslash.reaches.trans (hname.reaches.trans hblank)
  unfold readCloseTag
  dsimp only
  split
  · exact .throw (hc.reaches hbracket).cuts_empty
  · rename_i hclose
    split
    · exact .throw (hnamed.cuts hname.reaches)
    · rename_i hfound
      rw [not_not.1 hfound] at hname
      simp only [Bool.not_eq_true', Bool.not_eq_false] at hclose
      have hstop := Cursor.passes_of_startsWith hclose rfl
      refine .pure ⟨hbracket.trans hstop.reaches, ⟨hslash.reaches.pos_le, hname.reaches.pos_le, ?_⟩,
        hnamed.slice hname, hc.slice hslash⟩
      exact hblank.pos_le.trans_eq (Nat.eq_sub_of_add_eq hstop.pos.symm)

/-- The name in the tag that opens at a place. -/
def tagAt (c : Cursor) : Name :=
  ⟨(c.advance 1).run isTagChar, ⟨(c.advance 1).pos, ((c.advance 1).skipWhile isTagChar).pos⟩⟩

/-- An element from its tag, what its opening tag holds, its children and what closes it. What the opening tag holds
comes before `mid`, and all else after it. -/
theorem ContentsAt.element {contents : TagContents} {opened stop : Cursor} {body : List Statement}
    {close : Option Span} {mid : Nat} (h : ContentsAt source ((c.advance 1).skipWhile isTagChar) contents opened)
    (hc : c.On source) (hopen : c.rest.head? = some '<') (hstop : opened.Reaches stop)
    (hbody : Known source true body) (hmid : opened.pos - 1 ≤ mid)
    (hrest : InOrder mid (body.map (·.span) ++ close.toList) (stop.pos - 1))
    (hchildren : InOrder opened.pos (body.map (·.span)) stop.pos) (hbare : close = none → body = [])
    (hclose : ∀ span ∈ close, span.slice source = some (tagAt c).text ∧
      ∃ closing, Tile opened.pos (body.map (·.span)) closing ∧ slice source closing span.start = some "</") :
    StatementAt source c (.element ⟨tagAt c, contents.attributes, contents.modifiers, contents.comments,
      contents.params.getD [], body, contents.selfClosing, close, ⟨c.pos, stop.pos⟩⟩) stop := by
  have hbracket : c.Passes "<" (c.advance 1) := passes_head hopen
  have hname := (c.advance 1).passes_skipWhile isTagChar
  have hfront := hbracket.reaches.trans hname.reaches
  have hafter := hc.reaches hfront
  have hstart : c.pos + 1 = (c.advance 1).pos := hbracket.pos.symm
  have hrests := hname.reaches.trans (h.ends.reaches.trans hstop)
  have hall := hbracket.reaches.trans hrests
  have hlt := hrests.length_le.trans_lt (hbracket.length_lt (by decide))
  -- the name comes first, and the bracket that ends the tag last
  have hopening : Scattered (c.pos + 1) mid ((tagAt c).span :: contents.pieces) := by
    have htag : (tagAt c).span.In (c.pos + 1) ((c.advance 1).skipWhile isTagChar).pos :=
      ⟨hstart.le, hname.reaches.pos_le, le_rfl⟩
    exact (h.pieces.cons htag h.le).mono le_rfl hmid
  have hle : c.pos + 1 ≤ mid := by
    have := hopening.head
    exact this.lower.trans (this.ordered.trans this.upper)
  have hpieces := hopening.append hrest.scattered hle hrest.le
  refine ⟨⟨hall, hlt, rfl⟩, .single ?_ ?_ ?_ ?_ hbody.divided⟩
  · refine (Statement.accounted_element source _).2 ⟨⟨hc.cuts hall, hc.slice_after hbracket rfl, hbracket.pos,
      (hc.reaches hbracket.reaches).slice hname, fun a ha => (h.attributes a ha).1, fun m hm => (h.modifiers m hm).1,
      h.comments, h.params, hbare, fun span hspan => ?_⟩, hbody.accounted⟩
    obtain ⟨htag, closing, htile, hslash⟩ := hclose span hspan
    exact ⟨htag, opened.pos, closing, TagEnds.opensTo h.ends hafter rfl, htile, hslash⟩
  · refine (Statement.placed_element _).2 ⟨⟨?_, run_fits _ _, fun span hspan => (size_of_slice (hclose span hspan).1).1,
      fun a ha => (h.attributes a ha).2.1, fun m hm => (h.modifiers m hm).2⟩, hbody.placed⟩
    exact hpieces.mono (Nat.le_succ _) (Nat.sub_le _ _)
  · exact (Statement.neat_element true _).2 ⟨⟨fun a ha => (h.attributes a ha).2.2, mid, hle, hopening.inside, hrest⟩,
      hbody.neat⟩
  · exact ⟨⟨opened.pos, h.inOrder.mono hfront.pos_le le_rfl, hchildren⟩, hbody.opened⟩

theorem readElement_yields (hchildren : YieldsChildren source n children) (hc : c.On source)
    (hn : c.rest.length ≤ n + 1) (hopen : c.rest.head? = some '<') :
    YieldsAt source (fun e => StatementAt source c (.element e)) (readElement children c) := by
  have hlt := (passes_head hopen).length_lt (by decide)
  have hname := (c.advance 1).reaches_skipWhile isTagChar
  have hafter := (c.reaches_advance 1).trans hname
  unfold readElement
  dsimp only
  refine (readTagContents_yields (hc.cuts hafter) (hc.reaches hafter) (Nat.lt_succ_of_le hafter.length_le)).bind
    fun contents opened hcontents => ?_
  have hless := (hname.trans hcontents.ends.reaches).length_le
  have hto := hafter.trans hcontents.ends.reaches
  dsimp only
  split
  · exact .pure (hcontents.element hc hopen (.refl _) .nil le_rfl (Nat.le_refl _) (Nat.le_refl _) (fun _ => rfl)
      (by rintro _ ⟨⟩))
  · refine (hchildren .element (hc.reaches hto) (by omega)).bind fun body closing hbody => ?_
    dsimp only
    split
    · exact .throw (hc.cuts hto)
    · rename_i hend
      have hclosing : closing.startsWith "</" = true := hbody.stops.resolve_left (not_atEnd hend)
      refine (readCloseTag_yields (hc.reaches (hto.trans hbody.reaches)) hclosing _).bind fun span stop h => ?_
      obtain ⟨hstop, hin, hspan, hslash⟩ := h
      have horder := hbody.tiled.inOrder
      refine .pure (hcontents.element hc hopen (hbody.reaches.trans hstop) hbody.known (Nat.sub_le _ _)
        (hin.inOrder.append horder) (horder.mono le_rfl hstop.pos_le) (by rintro ⟨⟩) ?_)
      rintro _ ⟨⟩
      exact ⟨hspan, closing.pos, hbody.tiled, hslash⟩

/-! ## Statements -/

/-- What is found at a place: a statement, or what ends the list. -/
def FoundAt (source : String) (place : Place) (c : Cursor) : Option (Statement × Cursor) → Prop
  | none => StopsAt place c
  | some (s, d) => StatementAt source c s d

/-- What is read for a statement is found. -/
theorem YieldsAt.found {α : Type} {r : Read (α × Cursor)} {statement : α → Statement}
    (hr : YieldsAt source (fun a => StatementAt source c (statement a)) r) :
    Yields source (FoundAt source place c) (do let (a, after) ← r; return some (statement a, after)) :=
  Yields.bind hr fun _ h => .pure h

theorem readCurly_yields (hchildren : YieldsChildren source n children) (place : Place) (hc : c.On source)
    (hn : c.rest.length ≤ n + 1) (hopen : c.startsWith "\x7b\x7b" = true) :
    Yields source (FoundAt source place c) (readCurly children place c) := by
  unfold readCurly
  split
  · rename_i hcurly
    refine YieldsAt.found ((readMustacheComment_yields hc hopen hcurly).imp fun m d hm => ?_)
    exact ⟨hm.toCovers, .single hm.spelled trivial hm.span_lt trivial trivial⟩
  · exact YieldsAt.found (readBlock_yields hchildren hc hn)
  · refine YieldsAt.found ((readMustache_yields hc).imp fun m d hm => ?_)
    exact ⟨hm.toCovers, .single hm.spelled hm.placed hm.inset trivial trivial⟩
  · rename_i hcurly
    split
    · rename_i hplace
      exact .pure (hplace ▸ .inr ⟨hopen, .inl hcurly⟩)
    · exact .throw (curlySpan_cuts hc)
  · rename_i hcurly
    split
    · rename_i hplace
      exact .pure (hplace ▸ .inr ⟨hopen, .inr hcurly⟩)
    · exact .throw (curlySpan_cuts hc)

theorem readText_at (hc : c.On source) (hrest : c.rest ≠ []) :
    StatementAt source c (.text (readText c).1) (readText c).2 := by
  have hreach := c.reaches_advance (max 1 (textLength c.rest))
  have hlt := Cursor.advance_lt hrest (show 0 < max 1 (textLength c.rest) by omega)
  exact ⟨⟨hreach, hreach.length_lt hlt, rfl⟩, .single (spelled_runBetween hc hreach) trivial hlt trivial trivial⟩

theorem head?_of_startsElement (h : startsElement c.rest = true) : c.rest.head? = some '<' := by
  unfold startsElement at h
  split at h
  · rename_i hrest
    rw [hrest]
    rfl
  · cases h

theorem readStatement_yields (hchildren : YieldsChildren source n children) (place : Place) (hc : c.On source)
    (hn : c.rest.length ≤ n + 1) (hrest : c.rest ≠ []) :
    Yields source (FoundAt source place c) (readStatement children place c) := by
  unfold readStatement
  split
  · rename_i hclose
    split
    · rename_i hplace
      exact .pure (hplace ▸ .inr hclose)
    · exact .throw (hc.cuts ((c.reaches_advance 2).trans (Cursor.reaches_skipWhile _ _)))
  · split
    · rename_i hopen
      refine YieldsAt.found ((readComment_yields hc hopen).imp fun m d hm => ?_)
      exact ⟨hm.toCovers, .single hm.spelled trivial trivial trivial trivial⟩
    · split
      · rename_i hopen
        exact YieldsAt.found (readElement_yields hchildren hc hn (head?_of_startsElement hopen))
      · split
        · rename_i hopen
          exact readCurly_yields hchildren place hc hn hopen
        · exact .pure (readText_at hc hrest)

theorem readStatements_yields : ∀ fuel : Nat, YieldsChildren source fuel (readStatements fuel)
  | 0, place, c, _, hn => .pure (.nil (stopsAt_end place (List.length_eq_zero_iff.1 (Nat.le_zero.1 hn))))
  | fuel + 1, place, c, hc, hn => by
    unfold readStatements
    split
    · rename_i hend
      exact .pure (.nil (stopsAt_end place (List.isEmpty_iff.1 hend)))
    · rename_i hend
      refine .after (readStatement_yields (readStatements_yields fuel) place hc hn (not_atEnd hend)) fun found h => ?_
      cases found with
      | none => exact .pure (.nil h)
      | some found =>
        obtain ⟨s, after⟩ := found
        have hs : StatementAt source c s after := h
        have hlt := hs.length_lt
        refine (readStatements_yields fuel place (hc.reaches hs.reaches) (by omega)).bind fun ss stop hss => ?_
        exact .pure (hss.cons hs)

end Reader

/-- A text is read into a template that accounts for it and whose statements are known, or it is shown where it cannot
be read. -/
theorem parse_known (source : String) :
    Reader.Yields source (fun t => Accounted source t ∧ Reader.Known source true t.body) (parse source) := by
  have hlength : (Cursor.ofText source).rest.length ≤ source.length := String.length_toList.le
  unfold parse
  refine Reader.Yields.bind (Reader.readStatements_yields _ .root (.self source) hlength) fun found h => ?_
  obtain ⟨body, c⟩ := found
  refine .pure ⟨⟨rfl, ?_, h.known.accounted⟩, h.known⟩
  -- only the end of the text ends what stands outside of all elements and blocks
  have hrest : c.rest = [] := h.stops
  have hstop := h.reaches.stop_eq
  rw [Cursor.stop_ofText, Cursor.stop, hrest] at hstop
  rw [← hstop]
  exact h.tiled

theorem IsBody.accounted {source : String} {ss body : List Statement} (h : IsBody ss body)
    (hss : statementsAccounted source ss) : statementsAccounted source body := by
  induction h with
  | self => exact hss
  | program hb _ ih =>
    exact ih ((Statement.accounted_block source _).1 ((statementsAccounted_iff source).1 hss _ hb)).2.1
  | inverse hb harm _ ih =>
    exact ih (((Statement.accounted_block source _).1 ((statementsAccounted_iff source).1 hss _ hb)).2.2 _ harm)
  | children he _ ih =>
    exact ih ((Statement.accounted_element source _).1 ((statementsAccounted_iff source).1 hss _ he)).2

theorem parse_yields (source : String) : Reader.Yields source (Accounted source) (parse source) :=
  (parse_known source).imp fun _ h => h.1

variable {source : String} {t : Template}

variable (h : parse source = .ok t)
include h

/-- The statements of a template that was read are placed in its text. -/
theorem parse_placed : InOrder 0 (t.body.map (·.span)) (Text.size source) ∧ statementsPlaced t.body := by
  obtain ⟨haccounted, hknown⟩ := (parse_known source).ok t h
  exact ⟨haccounted.tiled.inOrder, hknown.placed⟩

theorem parse_neat : statementsNeat true t.body := ((parse_known source).ok t h).2.neat

theorem parse_opened : statementsOpened t.body := ((parse_known source).ok t h).2.opened

/-- The comments of a template that was read stand in its text in their order. -/
theorem parse_mentions : InOrder 0 ((mentions t.body).map (·.comment.span)) (Text.size source) := by
  obtain ⟨horder, hplaced⟩ := parse_placed h
  exact mentions_inOrder hplaced (parse_opened h) horder

end TypedTemplate.Template

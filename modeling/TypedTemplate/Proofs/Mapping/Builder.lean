/-
What a builder makes of a sequence of operations. Text is pushed, frames are opened, and any frame that is
held may be closed. A log keeps what was asked for: which frame each closing closed, which frames were around
it and what was written in it; it builds no tree and forgets nothing. Closing goes wrong exactly for a frame
that is not the latest, and ending the build exactly while a frame is held. A finished tree, read children
before parents, is the log of closings without those that left no node: frames that held no text and need
not be kept, and all that was closed in such a frame.

The log counts bytes, and a builder keeps positions of 32 bits. So a builder is compared with one that counts as
the log does: the former is the latter, kept in positions. As long as the code fits, the two are the same.

The invariant cuts the closings at the frames that are open: what was closed in a frame, outside of the next
one, is what stands in the frame's list of nodes.
-/
import TypedTemplate.Mapping.Builder
import TypedTemplate.Proofs.Mapping.Linear

namespace TypedTemplate.Mapping

open TypedTemplate.Span (InOrder)

/-! ## What is kept of places -/

def Frame.kept (f : Frame) : Frame := ⟨f.depth, position f.start⟩

/-- A builder with its places as positions. -/
def Builder.kept (b : Builder) : Builder := ⟨b.output, Tree.keptAll b.root, b.frames.map Tree.keptAll⟩

theorem Builder.kept_add (b : Builder) (t : Tree) : (b.add t).kept = b.kept.add t.kept := by
  obtain ⟨output, root, frames⟩ := b
  cases frames <;> simp [Builder.add, Builder.kept, Tree.keptAll_concat]

/-! ## Operations -/

/-- What is done with a builder. The frame to close is given by how many frames that are held were opened
after it. -/
inductive Operation where
  | text (code : String)
  | openFrame
  | close (index : Nat) (label : Label) (source : Span) (keepEmpty : Bool)
  deriving Repr, DecidableEq

/-- The text that an operation pushes. -/
def Operation.pushed : Operation → String
  | .text code => code
  | _ => ""

/-- A builder with the frames that were opened and not yet closed, the latest first. -/
structure Session where
  builder : Builder := {}
  held : List Frame := []

namespace Session

/-- Carries out an operation. To close a frame that there is not is to do nothing. -/
def perform (s : Session) : Operation → Except BuilderFault Session
  | .text code => .ok { s with builder := s.builder.text code }
  | .openFrame => .ok ⟨s.builder.openFrame.2, s.builder.openFrame.1 :: s.held⟩
  | .close index label source keepEmpty =>
    match s.held[index]? with
    | none => .ok s
    | some frame =>
      (s.builder.closeFrame frame label source keepEmpty).map fun b => ⟨b, s.held.eraseIdx index⟩

/-- Carries out operations one after another, up to a fault. -/
def run (ops : List Operation) : Except BuilderFault Session := ops.foldlM perform {}

end Session

/-! ## The log -/

/-- A frame that was closed: how many frames were opened before it, the same of those around it from the
inside out, what it was closed with, and the code that was written in it. -/
structure Closing where
  number : Nat
  around : List Nat
  label : Label
  source : Span
  keepEmpty : Bool
  generated : Span
  deriving Repr, DecidableEq

/-- Whether a frame is to leave a node, as far as it is concerned. -/
def Closing.isKept (c : Closing) : Bool := c.keepEmpty || !c.generated.kept.isEmpty

/-- Whether a frame is to leave a node: none of the frames around it was dropped. -/
def Closing.isShown (closings : List Closing) (c : Closing) : Bool :=
  c.isKept && closings.all fun d => d.isKept || !c.around.contains d.number

/-- What is asked for in a sequence of operations: the length of the text, the number of frames opened, those
open with their starts, the latest first, and those closed, in the order of closing. -/
structure Log where
  length : Nat := 0
  opened : Nat := 0
  pending : List (Nat × Nat) := []
  closings : List Closing := []
  deriving Repr, DecidableEq

namespace Log

def record (g : Log) : Operation → Log
  | .text code => { g with length := g.length + Text.size code }
  | .openFrame => { g with opened := g.opened + 1, pending := (g.opened, g.length) :: g.pending }
  | .close index label source keepEmpty =>
    match g.pending[index]? with
    | none => g
    | some (number, start) =>
      { g with
        pending := g.pending.eraseIdx index
        closings := g.closings ++
          [⟨number, (g.pending.drop (index + 1)).map (·.1), label, source, keepEmpty, ⟨start, g.length⟩⟩] }

/-- The log of a sequence of operations. -/
def ofOperations (ops : List Operation) : Log := ops.foldl record {}

/-- The closings that are to leave a node. -/
def shown (g : Log) : List Closing := g.closings.filter (Closing.isShown g.closings)

end Log

/-- A node as it is closed: its depth, what it stands for and its two spans. -/
abbrev Entry := Nat × Label × Span × Span

/-- The entry for a frame, whose depth tells how many frames were around it. -/
def Closing.entry (c : Closing) : Entry := (c.around.length + 1, c.label, c.source, c.generated)

namespace Tree

mutual

/-- The nodes of a tree whose root is at `depth`, children before parents. -/
def entries (depth : Nat) : Tree → List Entry
  | mk l s g cs => entriesAll (depth + 1) cs ++ [(depth, l, s, g)]

def entriesAll (depth : Nat) : List Tree → List Entry
  | [] => []
  | c :: cs => entries depth c ++ entriesAll depth cs

end

theorem entriesAll_concat (depth : Nat) (cs : List Tree) (c : Tree) :
    entriesAll depth (cs ++ [c]) = entriesAll depth cs ++ entries depth c := by
  induction cs with
  | nil => simp [entriesAll]
  | cons d cs ih => simp [entriesAll, ih]

end Tree

/-! ## What stands in one frame -/

/-- The nodes in a frame that starts at `start`, when the code stops at `stop`, and what was closed in it
outside of the frames that are open. `around` are the numbers of the frame and those around it; the frames
closed in it have numbers from `lo` up to `hi`. -/
structure Holds (around : List Nat) (lo hi start stop : Nat) (nodes : List Tree) (closed : List Closing) :
    Prop where
  inOrder : InOrder start (nodes.map (·.generated)) stop
  sequenced : ∀ t ∈ nodes, t.Sequenced
  le : lo ≤ hi
  below : ∀ e ∈ around, e < lo
  numbers : ∀ c ∈ closed, lo ≤ c.number ∧ c.number < hi
  enclosed : ∀ c ∈ closed, ∀ e ∈ around, e ∈ c.around
  enclosing : ∀ c ∈ closed, ∀ e ∈ c.around, e ∈ around ∨ lo ≤ e ∧ e < hi
  entries : Tree.entriesAll (around.length + 1) nodes =
    (closed.filter (Closing.isShown closed)).map Closing.entry

namespace Holds

variable {around : List Nat} {lo hi mid start stop place : Nat} {nodes inside : List Tree}
  {closed within : List Closing} {x : Closing}

theorem empty (hbelow : ∀ e ∈ around, e < lo) (place : Nat) : Holds around lo lo place place [] [] where
  inOrder := Nat.le_refl place
  sequenced := by simp
  le := le_rfl
  below := hbelow
  numbers := by simp
  enclosed := by simp
  enclosing := by simp
  entries := rfl

/-- More code, or more frames, change nothing in a frame. -/
theorem mono {hi' stop' : Nat} (h : Holds around lo hi start stop nodes closed) (hhi : hi ≤ hi')
    (hstop : stop ≤ stop') : Holds around lo hi' start stop' nodes closed where
  inOrder := h.inOrder.mono le_rfl hstop
  sequenced := h.sequenced
  le := h.le.trans hhi
  below := h.below
  numbers := fun c hc => ⟨(h.numbers c hc).1, (h.numbers c hc).2.trans_le hhi⟩
  enclosed := h.enclosed
  enclosing := fun c hc e he => (h.enclosing c hc e he).imp_right fun hin => ⟨hin.1, hin.2.trans_le hhi⟩
  entries := h.entries

/-! ### Closing the frame inside -/

section Closing

variable (outer : Holds around lo mid start place nodes closed)
  (inner : Holds (mid :: around) (mid + 1) hi place stop inside within)
  (hnumber : x.number = mid) (haround : x.around = around) {c : Closing}

/-- Frames that are not around one have no say in whether it is shown. -/
theorem all_isKept_of_not_mem {ds : List Closing} (h : ∀ d ∈ ds, d.number ∉ c.around) :
    (ds.all fun d => d.isKept || !c.around.contains d.number) = true := by
  simp only [List.all_eq_true, Bool.or_eq_true, Bool.not_eq_true', List.contains_eq_mem,
    decide_eq_false_iff_not]
  exact fun d hd => .inr (h d hd)

include outer inner hnumber in
/-- What was closed before the frame opened is shown or not as before. -/
theorem isShown_outer (hc : c ∈ closed) : Closing.isShown (closed ++ (within ++ [x])) c = Closing.isShown closed c := by
  have hlater : ∀ d ∈ within ++ [x], d.number ∉ c.around := by
    intro d hd hmem
    have hle : mid ≤ d.number := by
      rcases List.mem_append.1 hd with hd | hd
      · have := (inner.numbers d hd).1
        omega
      · rw [List.mem_singleton.1 hd, hnumber]
    have hnumbers := outer.numbers c hc
    rcases outer.enclosing c hc _ hmem with hopen | hin
    · have := outer.below _ hopen
      omega
    · omega
  rw [Closing.isShown, Closing.isShown, List.all_append, all_isKept_of_not_mem hlater, Bool.and_true]

include outer inner hnumber in
/-- What was closed in the frame is shown as before, unless the frame is dropped. -/
theorem isShown_inner (hc : c ∈ within) :
    Closing.isShown (closed ++ (within ++ [x])) c = (Closing.isShown within c && x.isKept) := by
  have hearlier : ∀ d ∈ closed, d.number ∉ c.around := by
    intro d hd hmem
    have hnumbers := outer.numbers d hd
    rcases inner.enclosing c hc _ hmem with hopen | hin
    · rcases List.mem_cons.1 hopen with heq | hopen
      · omega
      · have := outer.below _ hopen
        omega
    · omega
  have hframe : x.number ∈ c.around := hnumber ▸ inner.enclosed c hc mid List.mem_cons_self
  rw [Closing.isShown, Closing.isShown, List.all_append, all_isKept_of_not_mem hearlier, Bool.true_and,
    List.all_append, Bool.and_assoc]
  simp [hframe]

include outer inner hnumber haround in
/-- The frame itself is shown if it is kept. -/
theorem isShown_frame : Closing.isShown (closed ++ (within ++ [x])) x = x.isKept := by
  have hnone : ∀ d ∈ closed ++ (within ++ [x]), d.number ∉ x.around := by
    intro d hd hmem
    have hlt := outer.below _ (haround ▸ hmem)
    have hle := outer.le
    rcases List.mem_append.1 hd with hd | hd
    · have := outer.numbers d hd
      omega
    · rcases List.mem_append.1 hd with hd | hd
      · have := inner.numbers d hd
        omega
      · rw [List.mem_singleton.1 hd] at hlt
        omega
  rw [Closing.isShown, all_isKept_of_not_mem hnone, Bool.and_true]

include outer inner hnumber haround in
/-- What is shown after the frame is closed: what was shown before it, what was shown in it and the frame,
unless it is dropped. -/
theorem filter_isShown :
    (closed ++ (within ++ [x])).filter (Closing.isShown (closed ++ (within ++ [x]))) =
      closed.filter (Closing.isShown closed) ++
        if x.isKept then within.filter (Closing.isShown within) ++ [x] else [] := by
  rw [List.filter_append, List.filter_append,
    List.filter_congr fun c hc => isShown_outer outer inner hnumber hc,
    List.filter_congr fun c hc => isShown_inner outer inner hnumber hc, List.filter_singleton,
    isShown_frame outer inner hnumber haround]
  by_cases hkept : x.isKept = true
  · simp [hkept]
  · simp [hkept]

include outer inner hnumber haround in
/-- The frame inside, when it is closed, becomes a node of the frame around it, or nothing. -/
theorem close (hgenerated : x.generated = ⟨place, stop⟩) (hmid : mid < hi) :
    Holds around lo hi start stop
      (if x.isKept then nodes ++ [.mk x.label x.source x.generated inside] else nodes)
      (closed ++ (within ++ [x])) where
  inOrder := by
    have hle : place ≤ stop := inner.inOrder.le
    split
    · rw [List.map_append, List.map_singleton, Tree.generated, hgenerated]
      exact InOrder.append (Span.In.inOrder ⟨le_rfl, hle, le_rfl⟩) outer.inOrder
    · exact outer.inOrder.mono le_rfl hle
  sequenced := by
    split
    · intro t ht
      rcases List.mem_append.1 ht with ht | ht
      · exact outer.sequenced t ht
      · rw [List.mem_singleton.1 ht, hgenerated]
        exact Tree.sequenced_iff.2 ⟨inner.inOrder, inner.sequenced⟩
    · exact outer.sequenced
  le := outer.le.trans hmid.le
  below := outer.below
  numbers := by
    have hle := outer.le
    intro c hc
    rcases List.mem_append.1 hc with hc | hc
    · have := outer.numbers c hc
      omega
    · rcases List.mem_append.1 hc with hc | hc
      · have := inner.numbers c hc
        omega
      · rw [List.mem_singleton.1 hc]
        omega
  enclosed := by
    intro c hc e he
    rcases List.mem_append.1 hc with hc | hc
    · exact outer.enclosed c hc e he
    · rcases List.mem_append.1 hc with hc | hc
      · exact inner.enclosed c hc e (List.mem_cons_of_mem mid he)
      · rw [List.mem_singleton.1 hc, haround]
        exact he
  enclosing := by
    have hle := outer.le
    intro c hc e he
    rcases List.mem_append.1 hc with hc | hc
    · exact (outer.enclosing c hc e he).imp_right fun hin => ⟨hin.1, hin.2.trans hmid⟩
    · rcases List.mem_append.1 hc with hc | hc
      · rcases inner.enclosing c hc e he with hopen | hin
        · rcases List.mem_cons.1 hopen with rfl | hopen
          · exact .inr ⟨hle, hmid⟩
          · exact .inl hopen
        · exact .inr ⟨by omega, hin.2⟩
      · rw [List.mem_singleton.1 hc, haround] at he
        exact .inl he
  entries := by
    rw [filter_isShown outer inner hnumber haround, List.map_append, ← outer.entries]
    split
    · rw [List.map_append, ← inner.entries, Tree.entriesAll_concat, Tree.entries]
      simp [Closing.entry, haround]
    · simp

end Closing

end Holds

/-! ## The stack of frames -/

/-- The open frames, the latest first, over the root. Each holds what was closed in it, and what was closed
in the frames around it came before; `hi` frames were opened, and the code stops at `stop`. -/
inductive Layered (root : List Tree) :
    List (List Tree) → List Frame → List (Nat × Nat) → Nat → Nat → List Closing → Prop where
  | bottom {hi stop : Nat} {closed : List Closing} (holds : Holds [] 0 hi 0 stop root closed) :
    Layered root [] [] [] hi stop closed
  | frame {frames : List (List Tree)} {held : List Frame} {pending : List (Nat × Nat)}
      {number start hi stop : Nat} {inside : List Tree} {before within : List Closing}
      (outer : Layered root frames held pending number start before)
      (inner : Holds (number :: pending.map (·.1)) (number + 1) hi start stop inside within) :
    Layered root (inside :: frames) (⟨frames.length + 1, start⟩ :: held) ((number, start) :: pending) hi
      stop (before ++ within)

namespace Layered

variable {root : List Tree} {frames : List (List Tree)} {held : List Frame} {pending : List (Nat × Nat)}
  {hi stop : Nat} {closed : List Closing}

section

variable (h : Layered root frames held pending hi stop closed)
include h

theorem length_eq : frames.length = held.length ∧ pending.length = held.length := by
  induction h with
  | bottom => exact ⟨rfl, rfl⟩
  | frame outer inner ih => simp [ih]

/-- A frame was opened with as many frames as are left of it. -/
theorem depth_eq :
    ∀ {index : Nat} {frame : Frame}, held[index]? = some frame → frame.depth + index = frames.length := by
  induction h with
  | bottom => simp
  | frame outer inner ih =>
    intro index frame hget
    cases index with
    | zero =>
      cases hget
      rfl
    | succ index =>
      have := ih hget
      rw [List.length_cons]
      omega

/-- A frame of the present depth is the latest. -/
theorem latest {index : Nat} {frame : Frame} (hget : held[index]? = some frame) (hdepth : frame.depth = frames.length) :
    index = 0 ∧ ∃ inside frames' held' number start pending' before within,
      frames = inside :: frames' ∧ held = ⟨frames'.length + 1, start⟩ :: held' ∧
        pending = (number, start) :: pending' ∧ closed = before ++ within ∧
        Layered root frames' held' pending' number start before ∧
        Holds (number :: pending'.map (·.1)) (number + 1) hi start stop inside within := by
  have hindex := h.depth_eq hget
  refine ⟨by omega, ?_⟩
  cases h with
  | bottom => simp at hget
  | frame outer inner => exact ⟨_, _, _, _, _, _, _, _, rfl, rfl, rfl, rfl, outer, inner⟩

theorem numbers_lt : ∀ e ∈ pending.map (·.1), e < hi := by
  induction h with
  | bottom => simp
  | frame outer inner ih =>
    intro e he
    exact (inner.below e he).trans_le inner.le

/-- Frames start where there is code. -/
theorem start_le : ∀ frame ∈ held, frame.start ≤ stop := by
  induction h with
  | bottom => simp
  | frame outer inner ih =>
    have hle := inner.inOrder.le
    intro frame hframe
    rcases List.mem_cons.1 hframe with rfl | hframe
    · exact hle
    · exact (ih frame hframe).trans hle

theorem mono {stop' : Nat} (hstop : stop ≤ stop') : Layered root frames held pending hi stop' closed := by
  cases h with
  | bottom holds => exact .bottom (holds.mono le_rfl hstop)
  | frame outer inner => exact .frame outer (inner.mono le_rfl hstop)

theorem openFrame :
    Layered root ([] :: frames) (⟨frames.length + 1, stop⟩ :: held) ((hi, stop) :: pending) (hi + 1) stop
      closed := by
  have hbelow : ∀ e ∈ hi :: pending.map (·.1), e < hi + 1 := by
    intro e he
    rcases List.mem_cons.1 he with rfl | he
    · exact Nat.lt_succ_self e
    · exact (h.numbers_lt e he).trans (Nat.lt_succ_self hi)
  have hframe := Layered.frame h (Holds.empty hbelow stop)
  rwa [List.append_nil] at hframe

end

/-- Closing the latest frame leaves what it holds to the frame around it. -/
theorem close (output : String) {number start : Nat} {inside : List Tree} {within : List Closing} {x : Closing}
    (h : Layered root frames held pending number start closed)
    (inner : Holds (number :: pending.map (·.1)) (number + 1) hi start stop inside within)
    (hnumber : x.number = number) (haround : x.around = pending.map (·.1))
    (hgenerated : x.generated = ⟨start, stop⟩) {b : Builder}
    (hb : b = if x.isKept then
        Builder.add ⟨output, root, frames⟩ (.mk x.label x.source x.generated inside)
      else ⟨output, root, frames⟩) :
    Layered b.root b.frames held pending hi stop (closed ++ (within ++ [x])) := by
  have hlt : number < hi := inner.le
  subst hb
  cases h with
  | bottom holds =>
    have hclose := holds.close inner hnumber haround hgenerated hlt
    split
    · rename_i hkept
      rw [if_pos hkept] at hclose
      exact .bottom hclose
    · rename_i hdropped
      rw [if_neg hdropped] at hclose
      exact .bottom hclose
  | frame outer holds =>
    have hclose := holds.close inner hnumber haround hgenerated hlt
    rw [List.append_assoc]
    split
    · rename_i hkept
      rw [if_pos hkept] at hclose
      exact .frame outer hclose
    · rename_i hdropped
      rw [if_neg hdropped] at hclose
      exact .frame outer hclose

end Layered

/-! ## Steps and runs -/

/-- Closing the latest of the open frames. -/
theorem Builder.closeFrame_latest (output : String) (root inside : List Tree) (frames : List (List Tree))
    (start : Nat) (label : Label) (source : Span) (keepEmpty : Bool) :
    (Builder.kept ⟨output, root, inside :: frames⟩).closeFrame (Frame.kept ⟨frames.length + 1, start⟩) label source
        keepEmpty =
      if position (Text.size output) < position start then
        .error (.disordered (position start) (position (Text.size output)))
      else .ok (if keepEmpty || !(Span.mk start (Text.size output)).kept.isEmpty then
        Builder.add ⟨output, root, frames⟩ (.mk label source ⟨start, Text.size output⟩ inside)
      else ⟨output, root, frames⟩).kept := by
  have hdepth : (Frame.kept ⟨frames.length + 1, start⟩).depth =
      (Builder.kept ⟨output, root, inside :: frames⟩).frames.length := by simp [Frame.kept, Builder.kept]
  rw [Builder.closeFrame, Builder.closeAt, if_pos hdepth]
  show (if _ then _ else if _ then Except.ok _ else Except.ok _) = _
  rw [← apply_ite Except.ok, apply_ite Builder.kept, Builder.kept_add]
  rfl

theorem Builder.output_add (b : Builder) (t : Tree) : (b.add t).output = b.output := by
  unfold Builder.add
  split <;> rfl

theorem Builder.closeFrame_of_ne {b : Builder} {frame : Frame} (h : frame.depth ≠ b.frames.length)
    (label : Label) (source : Span) (keepEmpty : Bool) :
    b.closeFrame frame label source keepEmpty = .error .closedOutOfOrder := by
  rw [Builder.closeFrame, Builder.closeAt, if_neg h]

theorem Builder.output_closeFrame {b b' : Builder} {frame : Frame} {label : Label} {source : Span}
    {keepEmpty : Bool} (h : b.closeFrame frame label source keepEmpty = .ok b') : b'.output = b.output := by
  unfold Builder.closeFrame Builder.closeAt at h
  split at h
  · split at h
    · cases h
    · dsimp only at h
      split at h
      · cases h
      · split at h
        · cases h
          exact Builder.output_add _ _
        · cases h
          rfl
  · cases h

namespace Session

variable {s s' u : Session} {g : Log}

/-- A session with its places as positions. -/
def kept (u : Session) : Session := ⟨u.builder.kept, u.held.map Frame.kept⟩

/-- The builder holds what the log says, in a session that counts bytes. -/
structure Agrees (u : Session) (g : Log) : Prop where
  length : g.length = u.builder.length
  layered : Layered u.builder.root u.builder.frames u.held g.pending g.opened g.length g.closings

theorem agrees_start : Agrees {} {} where
  length := rfl
  layered := .bottom (.empty (by simp) 0)

theorem perform_close {index : Nat} {frame : Frame} (hget : s.held[index]? = some frame) (label : Label)
    (source : Span) (keepEmpty : Bool) :
    s.perform (.close index label source keepEmpty) =
      (s.builder.closeFrame frame label source keepEmpty).map fun b => ⟨b, s.held.eraseIdx index⟩ := by
  rw [perform, hget]

/-- A frame that is held is refused if it has not the present depth, and closed if it has and does not stop before it
starts. -/
theorem Agrees.perform_close (h : u.Agrees g) {index : Nat} {frame : Frame} (hget : u.held[index]? = some frame)
    (label : Label) (source : Span) (keepEmpty : Bool) :
    (u.kept.perform (.close index label source keepEmpty) = .error .closedOutOfOrder ↔
      frame.depth ≠ u.builder.frames.length) ∧
    ((∃ next, u.kept.perform (.close index label source keepEmpty) = .ok next) ↔
      frame.depth = u.builder.frames.length ∧ position frame.start ≤ u.builder.offset) := by
  obtain ⟨⟨output, root, frames⟩, held⟩ := u
  have hkept : (kept ⟨⟨output, root, frames⟩, held⟩).held[index]? = some frame.kept := by
    simp only [kept, List.getElem?_map]
    exact congrArg (Option.map Frame.kept) hget
  rw [Session.perform_close hkept]
  by_cases hdepth : frame.depth = frames.length
  · obtain ⟨rfl, inside, frames', held', number, start, pending', before, within, rfl, rfl, -, -, -, -⟩ :=
      h.layered.latest hget hdepth
    cases hget
    rw [kept, Builder.closeFrame_latest]
    by_cases hlt : position (Text.size output) < position start
    · simp [hlt, Except.map, Builder.offset, Builder.length]
    · simp [hlt, Except.map, Builder.offset, Builder.length, Nat.le_of_not_lt hlt]
  · have hne : frame.kept.depth ≠ (kept ⟨⟨output, root, frames⟩, held⟩).builder.frames.length := by
      simpa [kept, Builder.kept, Frame.kept] using hdepth
    rw [Builder.closeFrame_of_ne hne]
    simp [Except.map, hdepth]

/-- In code that fits, no frame stops before it starts. -/
theorem Agrees.start_le (h : u.Agrees g) {index : Nat} {frame : Frame} (hget : u.held[index]? = some frame)
    (hfits : u.builder.length ≤ maxPosition) : position frame.start ≤ u.builder.offset := by
  have hstart := h.layered.start_le frame (List.mem_of_getElem? hget)
  rw [h.length] at hstart
  rw [Builder.offset, position_of_le hfits, position_of_le (hstart.trans hfits)]
  exact hstart

/-- Closing the latest frame keeps the builder and the log together. -/
theorem agrees_close {output : String} {root inside : List Tree} {frames : List (List Tree)}
    {held : List Frame} {pending : List (Nat × Nat)} {number start opened : Nat} {before within : List Closing}
    (outer : Layered root frames held pending number start before)
    (inner : Holds (number :: pending.map (·.1)) (number + 1) opened start (Text.size output) inside within)
    (label : Label) (source : Span) (keepEmpty : Bool) :
    Agrees
      ⟨if keepEmpty || !(Span.mk start (Text.size output)).kept.isEmpty then
          Builder.add ⟨output, root, frames⟩ (.mk label source ⟨start, Text.size output⟩ inside)
        else ⟨output, root, frames⟩, held⟩
      (Log.record ⟨Text.size output, opened, (number, start) :: pending, before ++ within⟩
        (.close 0 label source keepEmpty)) where
  length := by
    simp only [Log.record, List.getElem?_cons_zero]
    split
    · rw [Builder.length, Builder.output_add]
    · rfl
  layered := by
    have hclose := outer.close output
      (x := ⟨number, pending.map (·.1), label, source, keepEmpty, ⟨start, Text.size output⟩⟩)
      inner rfl rfl rfl rfl
    rw [← List.append_assoc] at hclose
    exact hclose

/-- An operation keeps the builder and the log together. -/
theorem Agrees.perform (h : u.Agrees g) {op : Operation} (hperform : u.kept.perform op = .ok s') :
    ∃ u' : Session, s' = u'.kept ∧ u'.Agrees (g.record op) := by
  cases op with
  | text code =>
    cases hperform
    refine ⟨⟨u.builder.text code, u.held⟩, rfl, ?_, h.layered.mono (Nat.le_add_right _ _)⟩
    simp [Log.record, h.length, Builder.length, Builder.text]
  | openFrame =>
    cases hperform
    refine ⟨⟨⟨u.builder.output, u.builder.root, [] :: u.builder.frames⟩,
      ⟨u.builder.frames.length + 1, u.builder.length⟩ :: u.held⟩, ?_, h.length, ?_⟩
    · simp [kept, Builder.kept, Frame.kept, Builder.openFrame, Builder.openAt, Builder.offset, Builder.length,
        Tree.keptAll]
    · have hopen := h.layered.openFrame
      rw [h.length] at hopen
      show Layered _ _ _ ((g.opened, g.length) :: g.pending) _ g.length _
      rw [h.length]
      exact hopen
  | close index label source keepEmpty =>
    cases hget : u.held[index]? with
    | none =>
      have hnone : g.pending[index]? = none := by
        obtain ⟨-, hpending⟩ := h.layered.length_eq
        rw [List.getElem?_eq_none_iff] at hget ⊢
        omega
      have hkept : u.kept.held[index]? = none := by simp [kept, hget]
      rw [Session.perform, hkept] at hperform
      cases hperform
      rw [Log.record, hnone]
      exact ⟨u, rfl, h⟩
    | some frame =>
      have hkept : u.kept.held[index]? = some frame.kept := by simp [kept, hget]
      rw [Session.perform_close hkept] at hperform
      have hdepth : frame.depth = u.builder.frames.length := by
        by_contra hne
        rw [Builder.closeFrame_of_ne (by simpa [kept, Builder.kept, Frame.kept] using hne)] at hperform
        cases hperform
      obtain ⟨length, opened, pending, closings⟩ := g
      obtain ⟨⟨output, root, frames⟩, held⟩ := u
      obtain ⟨hlength, hlayered⟩ := h
      obtain ⟨rfl, inside, frames', held', number, start, pending', before, within, rfl, rfl, rfl, rfl,
        outer, inner⟩ := hlayered.latest hget hdepth
      obtain rfl : length = Text.size output := hlength
      cases hget
      rw [kept, Builder.closeFrame_latest] at hperform
      split at hperform
      · cases hperform
      · cases hperform
        exact ⟨_, rfl, agrees_close outer inner label source keepEmpty⟩

theorem output_perform {op : Operation} (h : s.perform op = .ok s') :
    s'.builder.output = s.builder.output ++ op.pushed := by
  cases op with
  | text code =>
    cases h
    rfl
  | openFrame =>
    cases h
    simp [Operation.pushed, Builder.openFrame, Builder.openAt]
  | close index label source keepEmpty =>
    simp only [Operation.pushed, String.append_empty]
    cases hget : s.held[index]? with
    | none =>
      rw [perform, hget] at h
      cases h
      rfl
    | some frame =>
      rw [perform_close hget] at h
      cases hclose : s.builder.closeFrame frame label source keepEmpty with
      | error e =>
        rw [hclose] at h
        cases h
      | ok b =>
        rw [hclose] at h
        cases h
        exact Builder.output_closeFrame hclose

/-- What a whole run keeps, from what each operation keeps. -/
theorem Agrees.run (h : u.Agrees g) {ops : List Operation} (hrun : ops.foldlM Session.perform u.kept = .ok s') :
    ∃ u' : Session, s' = u'.kept ∧ u'.Agrees (ops.foldl Log.record g) ∧
      u'.builder.output = u.builder.output ++ String.join (ops.map Operation.pushed) := by
  induction ops generalizing u g with
  | nil =>
    cases hrun
    exact ⟨u, rfl, h, by simp [String.join]⟩
  | cons op ops ih =>
    rw [List.foldlM_cons] at hrun
    cases hperform : u.kept.perform op with
    | error e =>
      rw [hperform] at hrun
      cases hrun
    | ok next =>
      obtain ⟨v, rfl, hv⟩ := h.perform hperform
      rw [hperform] at hrun
      obtain ⟨u', rfl, hagrees, houtput⟩ := ih hv hrun
      refine ⟨u', rfl, hagrees, ?_⟩
      have hnext : v.kept.builder.output = u.kept.builder.output ++ op.pushed := output_perform hperform
      change v.builder.output = u.builder.output ++ op.pushed at hnext
      rw [houtput, hnext]
      simp [String.join_cons, String.append_assoc]

/-- A build ends exactly if no frame is held, with all of the code and a root over it. -/
theorem Agrees.finish (h : u.Agrees g) (label : Label) (source : Span) :
    (u.builder.kept.finish label source = .error .unclosedFrames ↔ u.held ≠ []) ∧
      (u.held = [] → u.builder.kept.finish label source =
        .ok (u.builder.output, Tree.kept (.mk label source ⟨0, g.length⟩ u.builder.root)) ∧
          Holds [] 0 g.opened 0 g.length u.builder.root g.closings) := by
  obtain ⟨⟨output, root, frames⟩, held⟩ := u
  obtain ⟨length, opened, pending, closings⟩ := g
  obtain ⟨hlength, hlayered⟩ := h
  obtain rfl : length = Text.size output := hlength
  cases hlayered with
  | bottom holds => exact ⟨by simp [Builder.finish, Builder.finishAt, Builder.kept], fun _ => ⟨rfl, holds⟩⟩
  | frame outer inner => simp [Builder.finish, Builder.finishAt, Builder.kept]

/-! ## Code that fits -/

end Session

namespace Log

/-- The places of a log lie in its code, and no frame stops before it starts. -/
structure Bounded (g : Log) : Prop where
  pending : ∀ p ∈ g.pending, p.2 ≤ g.length
  closings : ∀ c ∈ g.closings, c.generated.In 0 g.length

theorem Bounded.record {g : Log} (h : g.Bounded) (op : Operation) : (g.record op).Bounded := by
  cases op with
  | text code =>
    have hle : g.length ≤ g.length + Text.size code := Nat.le_add_right _ _
    exact ⟨fun p hp => (h.pending p hp).trans hle, fun c hc => (h.closings c hc).mono le_rfl hle⟩
  | openFrame =>
    refine ⟨fun p hp => ?_, h.closings⟩
    rcases List.mem_cons.1 hp with rfl | hp
    · exact le_rfl
    · exact h.pending p hp
  | close index label source keepEmpty =>
    rw [Log.record]
    split
    · exact h
    · rename_i number start hget
      refine ⟨fun p hp => h.pending p (List.mem_of_mem_eraseIdx hp), fun c hc => ?_⟩
      rcases List.mem_append.1 hc with hc | hc
      · exact h.closings c hc
      · rw [List.mem_singleton.1 hc]
        exact ⟨Nat.zero_le _, h.pending _ (List.mem_of_getElem? hget), le_rfl⟩

theorem bounded_ofOperations (ops : List Operation) : (ofOperations ops).Bounded := by
  have hrun : ∀ (ops : List Operation) {g : Log}, g.Bounded → (ops.foldl record g).Bounded := by
    intro ops
    induction ops with
    | nil => exact id
    | cons op ops ih => exact fun h => ih (h.record op)
  exact hrun ops ⟨by simp, by simp⟩

/-- In code that fits, a frame is kept if it is to be kept or holds text. -/
theorem Bounded.isKept_eq {g : Log} (h : g.Bounded) (hfits : g.length ≤ maxPosition) {c : Closing}
    (hc : c ∈ g.closings) : c.isKept = (c.keepEmpty || !c.generated.isEmpty) := by
  rw [Closing.isKept, (h.closings c hc).kept hfits]

end Log

namespace Session

/-- What operations make of a builder. A frame that is held is refused exactly if its depth is not the present one,
and closed if its depth is and it does not stop before it starts; an end is refused exactly while a frame is held; and
the code is what was pushed. When no frame is held the build ends in a tree with a root over all of the code, whose
nodes follow one another within their parents; and its nodes, children before parents, are those of the frames that
were closed, in the order of closing, if they were to be kept or hold text and were in no frame that was dropped, each
once and at its own depth, and then the root. The places of the tree are kept as positions. In code that fits these
are the places themselves, no frame stops before it starts, and a frame holds text exactly if its place is not
empty. -/
theorem closed_frames_become_nodes {ops : List Operation} {s : Session} (h : run ops = .ok s) :
    (∀ index frame label source keepEmpty, s.held[index]? = some frame →
      (s.perform (.close index label source keepEmpty) = .error .closedOutOfOrder ↔
        frame.depth ≠ s.builder.frames.length) ∧
      ((∃ next, s.perform (.close index label source keepEmpty) = .ok next) ↔
        frame.depth = s.builder.frames.length ∧ frame.start ≤ s.builder.offset) ∧
      (Text.size s.builder.output ≤ maxPosition → frame.start ≤ s.builder.offset)) ∧
      (∀ label source, s.builder.finish label source = .error .unclosedFrames ↔ s.held ≠ []) ∧
      s.builder.output = String.join (ops.map Operation.pushed) ∧
      ∀ label source, s.held = [] → ∃ t : Tree, s.builder.finish label source = .ok (s.builder.output, t.kept) ∧
        t.label = label ∧ t.source = source ∧ t.generated = ⟨0, Text.size s.builder.output⟩ ∧
          t.Sequenced ∧
          t.entries 0 = (Log.ofOperations ops).shown.map Closing.entry ++
            [(0, label, source, ⟨0, Text.size s.builder.output⟩)] ∧
          (Text.size s.builder.output ≤ maxPosition → t.kept = t ∧
            ∀ c ∈ (Log.ofOperations ops).closings, c.isKept = (c.keepEmpty || !c.generated.isEmpty)) := by
  obtain ⟨u, rfl, hagrees, houtput⟩ := agrees_start.run h
  have hlength : (Log.ofOperations ops).length = Text.size u.builder.output := hagrees.length
  refine ⟨fun index frame label source keepEmpty hget => ?_, fun label source => ?_, ?_,
    fun label source hheld => ?_⟩
  · obtain ⟨f, hf, rfl⟩ : ∃ f, u.held[index]? = some f ∧ f.kept = frame := by simpa [kept] using hget
    have hframes : u.kept.builder.frames.length = u.builder.frames.length := List.length_map _
    obtain ⟨hrefused, hclosed⟩ := hagrees.perform_close hf label source keepEmpty
    rw [hframes]
    exact ⟨hrefused, hclosed, hagrees.start_le hf⟩
  · simpa [kept] using (hagrees.finish label source).1
  · simpa [kept, Builder.kept] using houtput
  · obtain ⟨hfinish, hholds⟩ := (hagrees.finish label source).2 (by simpa [kept] using hheld)
    have hentries : Tree.entriesAll (0 + 1) u.builder.root =
        (Log.ofOperations ops).shown.map Closing.entry := hholds.entries
    have hsequenced : Tree.Sequenced (.mk label source ⟨0, (Log.ofOperations ops).length⟩ u.builder.root) :=
      Tree.sequenced_iff.2 ⟨hholds.inOrder, hholds.sequenced⟩
    refine ⟨_, hfinish, rfl, rfl, by rw [Tree.generated]; exact congrArg _ hlength, hsequenced, ?_, fun hfits => ?_⟩
    · rw [Tree.entries, hentries]
      exact congrArg (fun n => _ ++ [(0, label, source, Span.mk 0 n)]) hlength
    · have hsize : (Log.ofOperations ops).length ≤ maxPosition := hlength ▸ hfits
      exact ⟨hsequenced.kept hsize, fun c hc => (Log.bounded_ofOperations ops).isKept_eq hsize hc⟩

/-- A mark in a frame that is dropped is dropped too, and a mark in a frame with text is kept. -/
theorem closed_frames_become_nodes_in_order :
    run [.text "f(", .openFrame, .openFrame, .close 0 .text ⟨1, 2⟩ true, .close 0 (.node "Noop") ⟨1, 2⟩ false,
        .openFrame, .openFrame, .close 0 .text ⟨2, 3⟩ true, .text "abc",
        .close 0 (.node "PathExpression") ⟨2, 5⟩ false] =
      .ok ⟨⟨"f(abc", [.mk (.node "PathExpression") ⟨2, 5⟩ ⟨2, 5⟩ [.mk .text ⟨2, 3⟩ ⟨2, 2⟩ []]], []⟩, []⟩ ∧
    ∃ t : Tree, t.kept = t ∧ t.Sequenced ∧ t.entries 0 =
      [(2, .text, ⟨2, 3⟩, ⟨2, 2⟩), (1, .node "PathExpression", ⟨2, 5⟩, ⟨2, 5⟩),
        (0, .template, ⟨0, 9⟩, ⟨0, 5⟩)] := by
  have hrun : run [.text "f(", .openFrame, .openFrame, .close 0 .text ⟨1, 2⟩ true,
        .close 0 (.node "Noop") ⟨1, 2⟩ false, .openFrame, .openFrame, .close 0 .text ⟨2, 3⟩ true,
        .text "abc", .close 0 (.node "PathExpression") ⟨2, 5⟩ false] =
      .ok ⟨⟨"f(abc", [.mk (.node "PathExpression") ⟨2, 5⟩ ⟨2, 5⟩ [.mk .text ⟨2, 3⟩ ⟨2, 2⟩ []]], []⟩, []⟩ :=
    rfl
  obtain ⟨t, -, -, -, -, hsequenced, hentries, hfits⟩ :=
    (closed_frames_become_nodes hrun).2.2.2 .template ⟨0, 9⟩ rfl
  refine ⟨hrun, t, (hfits (by decide)).1, hsequenced, hentries.trans ?_⟩
  decide

end Session

end TypedTemplate.Mapping

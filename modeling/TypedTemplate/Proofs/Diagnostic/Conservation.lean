/-
No diagnostic is lost and none is counted twice. A run puts every diagnostic at its place and holds it
against the directives of its module: the first one that covers it counts it, and without such a directive it
is kept. So a run is described by its inputs at their places, one by one, and what it keeps and what it counts
add up to what it was given.
-/
import TypedTemplate.Proofs.Diagnostic.Counting
import TypedTemplate.Proofs.Module.Weave

namespace TypedTemplate

/-- A diagnostic as it is given, and at its place. -/
structure Report where
  given : Diagnostic
  placed : Diagnostic
  deriving Repr, DecidableEq

namespace Report

/-- Diagnostics of files without a module stay as they are; others are at the place that the code of their
module stands for. -/
def Stands (modules : List Module) (r : Report) : Prop :=
  (∀ m ∈ modules, Path.same m.file r.given.file = false) ∧ r.placed = r.given ∨
    ∃ m ∈ modules, Path.same m.file r.given.file = true ∧ r.given.relocate modules m = .ok r.placed

/-- Whether a directive of a module, by its number, is the first of the module that covers a diagnostic of
the module. -/
def isClaimedBy (m : Module) (i : Nat) (r : Report) : Bool :=
  Path.same m.file r.given.file && m.directives[i]?.any (·.covers r.placed) &&
    (m.directives.take i).all fun directive => !directive.covers r.placed

/-- Whether no directive of its module covers a diagnostic. -/
def isFree (modules : List Module) (r : Report) : Bool :=
  modules.all fun m => !Path.same m.file r.given.file || m.directives.all fun d => !d.covers r.placed

variable {modules : List Module} {m : Module} {i : Nat} {r : Report}

theorem isClaimedBy_iff : r.isClaimedBy m i = true ↔ Path.same m.file r.given.file = true ∧
    m.directives.findIdx? (·.covers r.placed) = some i := by
  rw [isClaimedBy, Bool.and_eq_true, Bool.and_eq_true, and_assoc, and_congr_right_iff]
  intro _
  rw [List.findIdx?_eq_some_iff_getElem, Option.any_eq_true, List.all_eq_true]
  constructor
  · rintro ⟨⟨directive, hi, hcovers⟩, hbefore⟩
    obtain ⟨hlt, rfl⟩ := List.getElem?_eq_some_iff.1 hi
    refine ⟨hlt, hcovers, fun j hj => ?_⟩
    have := hbefore _ (List.mem_take_iff_getElem.2 ⟨j, by omega, rfl⟩)
    simpa using this
  · rintro ⟨hlt, hcovers, hbefore⟩
    refine ⟨⟨_, List.getElem?_eq_getElem hlt, hcovers⟩, fun directive hd => ?_⟩
    obtain ⟨j, hj, rfl⟩ := List.mem_take_iff_getElem.1 hd
    simpa using hbefore j (by omega)

/-- A diagnostic of a module is free or claimed as the directives of that module say. -/
theorem isFree_eq (hdistinct : Module.Distinct modules) (hm : m ∈ modules)
    (hfile : Path.same m.file r.given.file = true) :
    r.isFree modules = (m.directives.findIdx? (·.covers r.placed)).isNone := by
  rw [Bool.eq_iff_iff, isFree, List.all_eq_true, Option.isNone_iff_eq_none, List.findIdx?_eq_none_iff]
  constructor
  · intro h directive hd
    have := h m hm
    rw [hfile, Bool.not_true, Bool.false_or, List.all_eq_true] at this
    simpa using this directive hd
  · intro h n hn
    cases hsame : Path.same n.file r.given.file with
    | false => rfl
    | true =>
      rw [hdistinct.eq_of_file hn hm hsame hfile, Bool.not_true, Bool.false_or, List.all_eq_true]
      exact fun directive hd => by simpa using h directive hd

theorem not_claimed_of_free (hfree : r.isFree modules = true) (hm : m ∈ modules) (i : Nat) :
    r.isClaimedBy m i = false := by
  by_contra hclaimed
  obtain ⟨hfile, hi⟩ := isClaimedBy_iff.1 (Bool.not_eq_false _ ▸ hclaimed)
  obtain ⟨hlt, hcovers, -⟩ := List.findIdx?_eq_some_iff_getElem.1 hi
  have hall := List.all_eq_true.1 hfree m hm
  rw [hfile, Bool.not_true, Bool.false_or, List.all_eq_true] at hall
  simpa [hcovers] using hall _ (List.getElem_mem hlt)

/-- What is not free is claimed, by one directive. -/
theorem claimed_of_not_free (hdistinct : Module.Distinct modules) (hfree : r.isFree modules = false) :
    ∃ m ∈ modules, ∃ i, r.isClaimedBy m i = true ∧
      ∀ n ∈ modules, ∀ j, r.isClaimedBy n j = true → n = m ∧ j = i := by
  obtain ⟨m, hm, hcovered⟩ := List.all_eq_false.1 hfree
  have hfile : Path.same m.file r.given.file = true := by
    by_contra hfile
    simp [hfile] at hcovered
  rw [isFree_eq hdistinct hm hfile] at hfree
  obtain ⟨i, hi⟩ := Option.isNone_eq_false_iff.1 hfree |> Option.isSome_iff_exists.1
  refine ⟨m, hm, i, isClaimedBy_iff.2 ⟨hfile, hi⟩, fun n hn j hj => ?_⟩
  obtain ⟨hsame, hj⟩ := isClaimedBy_iff.1 hj
  obtain rfl := hdistinct.eq_of_file hn hm hsame hfile
  exact ⟨rfl, Option.some.inj (hj.symm.trans hi)⟩

end Report

/-! ## One diagnostic of a run -/

namespace Located

variable {modules : List Module} {l : Located} {r : Report}

/-- What a run finds out about a diagnostic is what holds of it at its place. -/
structure Tells (modules : List Module) (l : Located) (r : Report) : Prop where
  diagnostic : l.diagnostic = r.placed
  kept : l.coveredBy.isNone = r.isFree modules
  counted : ∀ m ∈ modules, ∀ i, l.isCoveredBy m.file i = r.isClaimedBy m i
  /-- What covers the diagnostic is a directive of a module. -/
  covered : ∀ file i, l.coveredBy = some (file, i) → ∃ m ∈ modules, m.file = file ∧
    ∃ directive, m.directives[i]? = some directive ∧ directive.covers l.diagnostic = true

/-- A diagnostic of no module. -/
theorem tells_of_none {d : Diagnostic} (h : ∀ m ∈ modules, Path.same m.file d.file = false) :
    Tells modules ⟨d, none⟩ ⟨d, d⟩ where
  diagnostic := rfl
  kept := (List.all_eq_true.2 fun m hm => by simp [h m hm]).symm
  counted m hm i := by simp [Report.isClaimedBy, isCoveredBy, h m hm]
  covered file i hl := by cases hl

/-- A diagnostic of a module. -/
theorem tells_of_mem (hdistinct : Module.Distinct modules) {m : Module} (hm : m ∈ modules)
    {d placed : Diagnostic} (hfile : Path.same m.file d.file = true) :
    Tells modules ⟨placed, (m.directives.findIdx? (·.covers placed)).map fun i => (m.file, i)⟩
      ⟨d, placed⟩ where
  diagnostic := rfl
  kept := by
    rw [Report.isFree_eq (r := ⟨d, placed⟩) hdistinct hm hfile, Option.isNone_map]
  counted n hn i := by
    rw [Bool.eq_iff_iff, Report.isClaimedBy_iff]
    have hsame : Path.same m.file n.file = true ↔ Path.same n.file d.file = true := by
      rw [Path.same_comm, Path.same_iff, Path.same_iff, Path.same_iff.1 hfile]
    cases hfound : m.directives.findIdx? (·.covers placed) with
    | none =>
      refine ⟨fun h => by simp [isCoveredBy] at h, fun ⟨hn', hi⟩ => ?_⟩
      rw [hdistinct.eq_of_same hn hm (Path.same_comm .. ▸ hsame.2 hn')] at hi
      rw [hfound] at hi
      cases hi
    | some j =>
      simp only [isCoveredBy, Option.map_some, Bool.and_eq_true, beq_iff_eq, hsame]
      refine and_congr_right fun hn' => ?_
      rw [hdistinct.eq_of_same hn hm (Path.same_comm .. ▸ hsame.2 hn'), hfound, Option.some.injEq, eq_comm]
  covered file i hl := by
    obtain ⟨j, hj, heq⟩ := Option.map_eq_some_iff.1 hl
    cases heq
    obtain ⟨hlt, hcovers, -⟩ := List.findIdx?_eq_some_iff_getElem.1 hj
    exact ⟨m, hm, rfl, _, List.getElem?_eq_getElem hlt, hcovers⟩

/-- Where relocation succeeds, a run finds a diagnostic at its place. -/
theorem ofDiagnostic_eq (hdistinct : Module.Distinct modules) {d : Diagnostic}
    (hd : ∀ m ∈ modules, Path.same m.file d.file = true → ∃ placed, d.relocate modules m = .ok placed) :
    ∃ l r, ofDiagnostic modules d = .ok l ∧ r.given = d ∧ r.Stands modules ∧ Tells modules l r := by
  cases hfind : Module.find? modules d.file with
  | none =>
    have hnone (m : Module) (hm : m ∈ modules) : Path.same m.file d.file = false := by
      simpa using List.find?_eq_none.1 hfind m hm
    refine ⟨⟨d, none⟩, ⟨d, d⟩, ?_, rfl, .inl ⟨hnone, rfl⟩, tells_of_none hnone⟩
    simp only [ofDiagnostic, hfind]
  | some m =>
    have hm := List.mem_of_find?_eq_some hfind
    have hfile : Path.same m.file d.file = true :=
      List.find?_some (p := fun x : Module => Path.same x.file d.file) hfind
    obtain ⟨placed, hplaced⟩ := hd m hm hfile
    refine ⟨_, ⟨d, placed⟩, ?_, rfl, .inr ⟨m, hm, hfile, hplaced⟩, tells_of_mem hdistinct hm hfile⟩
    simp only [ofDiagnostic, hfind, hplaced, bind, Except.bind, hdistinct.directivesOf_eq hm]
    rfl

theorem mapM_ofDiagnostic (hdistinct : Module.Distinct modules) {inputs : List Diagnostic}
    (hinputs : ∀ d ∈ inputs, ∀ m ∈ modules, Path.same m.file d.file = true →
      ∃ placed, d.relocate modules m = .ok placed) :
    ∃ located reports, inputs.mapM (ofDiagnostic modules) = .ok located ∧
      reports.map (·.given) = inputs ∧ (∀ r ∈ reports, r.Stands modules) ∧
      List.Forall₂ (Tells modules) located reports := by
  induction inputs with
  | nil => exact ⟨[], [], rfl, rfl, List.forall_mem_nil _, .nil⟩
  | cons d ds ih =>
    obtain ⟨l, r, hl, hgiven, hstands, htells⟩ := ofDiagnostic_eq hdistinct (hinputs d List.mem_cons_self)
    obtain ⟨ls, rs, hls, hgivens, hall, htell⟩ := ih fun d' hd' => hinputs d' (List.mem_cons_of_mem d hd')
    refine ⟨l :: ls, r :: rs, ?_, ?_, List.forall_mem_cons.2 ⟨hstands, hall⟩, .cons htells htell⟩
    · rw [List.mapM_cons, hl, hls]
      rfl
    · rw [List.map_cons, hgiven, hgivens]

end Located

/-! ## All diagnostics of a run -/

namespace Relocated

variable {modules : List Module} {ls : List Located} {rs : List Report}

theorem kept_eq (h : List.Forall₂ (Located.Tells modules) ls rs) :
    (ls.filter (·.coveredBy.isNone)).map (·.diagnostic) =
      (rs.filter (·.isFree modules)).map (·.placed) := by
  induction h with
  | nil => rfl
  | cons htells _ ih =>
    rw [List.filter_cons, List.filter_cons, htells.kept]
    split
    · rw [List.map_cons, List.map_cons, ih, htells.diagnostic]
    · exact ih

theorem length_isCoveredBy (h : List.Forall₂ (Located.Tells modules) ls rs) {m : Module} (hm : m ∈ modules)
    (i : Nat) : (ls.filter (·.isCoveredBy m.file i)).length = rs.countP (·.isClaimedBy m i) := by
  induction h with
  | nil => rfl
  | cons htells _ ih =>
    rw [List.filter_cons, List.countP_cons, htells.counted m hm i]
    split
    · rw [List.length_cons, ih]
    · rw [ih, Nat.add_zero]

/-- The directives of modules, each with the reports that it claims added to its count. -/
def claims (modules : List Module) (rs : List Report) : List Directive :=
  modules.flatMap fun m => m.directives.mapIdx fun i directive =>
    { directive with matchCount := directive.matchCount + rs.countP (·.isClaimedBy m i) }

/-- How much directives have counted. -/
def total (directives : List Directive) : Nat := (directives.map (·.matchCount)).sum

variable (hdistinct : Module.Distinct modules)
include hdistinct

theorem directives_eq (h : List.Forall₂ (Located.Tells modules) ls rs) :
    (ofLocated modules ls).directives = claims modules rs := by
  simp only [ofLocated, claims, hdistinct.firsts_eq]
  refine List.flatMap_congr fun m hm => ?_
  rw [counted, hdistinct.directivesOf_eq hm]
  refine List.mapIdx_eq_mapIdx_iff.2 fun i _ => ?_
  rw [length_isCoveredBy h hm]

theorem total_nil : total (ofLocated modules []).directives = total (modules.flatMap (·.directives)) := by
  rw [directives_eq hdistinct .nil, claims]
  refine congrArg total (List.flatMap_congr fun m _ => ?_)
  exact List.ext_getElem (by simp) fun i _ _ => by simp

/-- One more diagnostic is kept or it is counted, and not both. -/
theorem total_cons {l : Located} {r : Report} (hl : Located.Tells modules l r) :
    total (ofLocated modules (l :: ls)).directives =
      total (ofLocated modules ls).directives + if l.coveredBy.isNone then 0 else 1 := by
  cases hcovered : l.coveredBy with
  | none =>
    have hnever (file : String) (i : Nat) : l.isCoveredBy file i = false := by
      rw [Located.isCoveredBy, hcovered]
    simp [ofLocated, counted, List.filter_cons, hnever]
  | some found =>
    obtain ⟨file, i⟩ := found
    obtain ⟨m, hm, rfl, directive, hi, hcovers⟩ := hl.covered file i hcovered
    have habsorbs : Absorbs l.diagnostic (ofLocated modules ([] ++ ls)) (ofLocated modules ([] ++ l :: ls)) :=
      absorbs_of_covered hdistinct hm hcovered hi hcovers
    obtain ⟨kept, before, directive, after, -, hwithout, hwith, -⟩ := habsorbs
    rw [List.nil_append] at hwithout hwith
    simp only [hwithout, hwith, total, List.map_append, List.map_cons, List.sum_append, List.sum_cons,
      Option.isNone_some, Bool.false_eq_true, if_false]
    omega

/-- What is kept and what is counted add up to what is given. -/
theorem total_add_kept (h : List.Forall₂ (Located.Tells modules) ls rs) :
    (ls.filter (·.coveredBy.isNone)).length + total (ofLocated modules ls).directives =
      rs.length + total (modules.flatMap (·.directives)) := by
  induction h with
  | nil => simp [total_nil hdistinct]
  | @cons l r ls rs htells _ ih =>
    rw [total_cons hdistinct htells, List.filter_cons, List.length_cons]
    cases l.coveredBy.isNone with
    | true =>
      rw [if_pos rfl, if_pos rfl, List.length_cons]
      omega
    | false =>
      rw [if_neg Bool.false_ne_true, if_neg Bool.false_ne_true]
      omega

/-- The result of a run for diagnostics at their places. -/
structure Answers (modules : List Module) (rs : List Report) (result : Relocated) : Prop where
  diagnostics : result.diagnostics = (rs.filter (·.isFree modules)).map (·.placed) ++ unused result.directives
  directives : result.directives = claims modules rs
  total : (rs.filter (·.isFree modules)).length + total result.directives =
    rs.length + Relocated.total (modules.flatMap (·.directives))

/-- Where relocation succeeds there is a result, and it is that for the diagnostics at their places. -/
theorem exists_answers {inputs : List Diagnostic}
    (hinputs : ∀ d ∈ inputs, ∀ m ∈ modules, Path.same m.file d.file = true →
      ∃ placed, d.relocate modules m = .ok placed) :
    ∃ reports result, ofDiagnostics modules inputs = .ok result ∧ reports.map (·.given) = inputs ∧
      (∀ r ∈ reports, r.Stands modules) ∧ Answers modules reports result := by
  obtain ⟨ls, rs, hls, hgiven, hstands, htells⟩ := Located.mapM_ofDiagnostic hdistinct hinputs
  have hkept := kept_eq htells
  have hlength : (ls.filter (·.coveredBy.isNone)).length = (rs.filter (·.isFree modules)).length := by
    simpa using congrArg List.length hkept
  refine ⟨rs, ofLocated modules ls, by rw [ofDiagnostics_eq, hls]; rfl, hgiven, hstands, ?_,
    directives_eq hdistinct htells, hlength ▸ total_add_kept hdistinct htells⟩
  rw [← hkept]
  rfl

end Relocated

/-! ## Conservation -/

namespace Module

/-- Compiling counts nothing, and neither does moving what it says. -/
theorem matchCount_of_compile {imports : List Script.ImportedName} {file embedding : String} {content : Span}
    {dialect : Dialect} {w : Wrapper} : ∀ d ∈ (compile imports file embedding content dialect w).directives,
      d.matchCount = 0 := by
  intro d hd
  obtain ⟨l, -, rfl⟩ := List.mem_map.1 hd
  rfl

theorem matchCount_of_embed {imports : List Script.ImportedName} {script : SourceFile} {range content : Span}
    {dialect : Dialect} {w : Wrapper} : ∀ d ∈ (embed imports script range content dialect w).directives,
      d.matchCount = 0 := by
  intro d hd
  obtain ⟨l, hl, rfl⟩ := List.mem_map.1 hd
  exact matchCount_of_compile l hl

/-- The directives of a woven module have counted nothing, however its script is read. -/
theorem matchCount_of_weave {reader : ScriptReader} {env : Environment} {script : SourceFile}
    {companion : Option SourceFile} {m : Module} (h : weaveWith reader env script companion = .ok (some m)) :
    ∀ directive ∈ m.directives, directive.matchCount = 0 := by
  obtain ⟨found, native, outline, -, -, -, hmade⟩ := weave_contributions h
  intro directive hdirective
  rw [(ofContributions_eq_some hmade).2.2.2] at hdirective
  obtain ⟨c, hc, hof⟩ := List.mem_flatMap.1 hdirective
  unfold contributions at hc
  dsimp only at hc
  rw [List.mem_append, List.mem_append, List.mem_map] at hc
  rcases hc with (⟨t, -, rfl⟩ | hc) | hc
  · unfold ofTagged at hof
    split at hof
    · cases hof
    · exact matchCount_of_embed directive hof
  · cases henv : env.native with
    | none =>
      rw [henv] at hc
      cases hc
    | some dialect =>
      rw [henv] at hc
      obtain ⟨t, -, rfl⟩ := List.mem_map.1 hc
      exact matchCount_of_embed directive hof
  · cases found with
    | none => cases hc
    | some found =>
      rw [List.mem_singleton.1 hc, ofCompanion] at hof
      split at hof
      · exact matchCount_of_compile directive hof
      · exact matchCount_of_compile directive hof

end Module

namespace Relocated

variable {modules : List Module} {inputs : List Diagnostic}

/-- A run on modules with files of their own keeps, in the order of the inputs, those that no directive
covers at their places, and then reports the directives that expect an error and have counted none. Every
other input counts once, for the first directive of its module that covers it. -/
theorem diagnostics_conserved (hdistinct : Module.Distinct modules)
    (hinputs : ∀ d ∈ inputs, ∀ m ∈ modules, Path.same m.file d.file = true →
      ∃ placed, d.relocate modules m = .ok placed) :
    ∃ (reports : List Report) (result : Relocated),
      ofDiagnostics modules inputs = .ok result ∧ reports.map (·.given) = inputs ∧
      (∀ r ∈ reports, r.Stands modules) ∧
      result.diagnostics =
        (reports.filter (·.isFree modules)).map (·.placed) ++ unused result.directives ∧
      result.directives = modules.flatMap (fun m => m.directives.mapIdx fun i directive =>
        { directive with matchCount := directive.matchCount + reports.countP (·.isClaimedBy m i) }) ∧
      (∀ r ∈ reports, r.isFree modules = true → ∀ m ∈ modules, ∀ i, r.isClaimedBy m i = false) ∧
      (∀ r ∈ reports, r.isFree modules = false → ∃ m ∈ modules, ∃ i, r.isClaimedBy m i = true ∧
        ∀ n ∈ modules, ∀ j, r.isClaimedBy n j = true → n = m ∧ j = i) ∧
      (reports.filter (·.isFree modules)).length + total result.directives =
        inputs.length + total (modules.flatMap (·.directives)) ∧
      ((∀ m ∈ modules, ∃ reader env script companion,
          Module.weaveWith reader env script companion = .ok (some m)) →
        (reports.filter (·.isFree modules)).length + total result.directives = inputs.length) := by
  obtain ⟨reports, result, hresult, hgiven, hstands, hanswers⟩ := exists_answers hdistinct hinputs
  have hlength : reports.length = inputs.length := by rw [← hgiven, List.length_map]
  have htotal := hanswers.total
  rw [hlength] at htotal
  refine ⟨reports, result, hresult, hgiven, hstands, hanswers.diagnostics, hanswers.directives, ?_,
    fun r _ hfree => Report.claimed_of_not_free hdistinct hfree, htotal, fun hwoven => ?_⟩
  · exact fun r _ hfree m hm i => Report.not_claimed_of_free hfree hm i
  · have hfresh : total (modules.flatMap (·.directives)) = 0 := by
      refine List.sum_eq_zero fun n hn => ?_
      obtain ⟨directive, hdirective, rfl⟩ := List.mem_map.1 hn
      obtain ⟨m, hm, hdirective⟩ := List.mem_flatMap.1 hdirective
      obtain ⟨reader, env, script, companion, hweave⟩ := hwoven m hm
      exact Module.matchCount_of_weave hweave directive hdirective
    rw [htotal, hfresh, Nat.add_zero]

/-- Of two directives that cover a diagnostic the outer one counts it, and the inner one is unused. -/
theorem diagnostics_conserved_nested :
    let source := "\x7b\x7b! @glint-ignore \x7d\x7d<p>\x7b\x7b! @glint-expect-error \x7d\x7d\x7b\x7b@a.b\x7d\x7d</p>"
    let d (file : String) (start length : Nat) : Diagnostic :=
      { file, start, length, message := "no such key", code := 2339 }
    let inputs := [d "a.gts" 278 1, d "b.ts" 3 1, d "a.gts" 0 4]
    ∃ m, Module.weaveWith .plain { native := some { typesModule := "types" } }
        ⟨"a.gts", "<template>" ++ source ++ "</template>"⟩ none = .ok (some m) ∧
      (∀ d ∈ inputs, ∀ n ∈ [m], Path.same n.file d.file = true →
        ∃ placed, d.relocate [m] n = .ok placed) ∧
      ∃ (reports : List Report) (result : Relocated), ofDiagnostics [m] inputs = .ok result ∧
        reports.map (·.given) = inputs ∧ (reports.filter (·.isFree [m])).length = 1 ∧
        result.directives.map (·.matchCount) = [2, 0] ∧ (unused result.directives).length = 1 := by
  intro source d inputs
  have hweave : ((Module.weaveWith .plain { native := some { typesModule := "types" } }
      ⟨"a.gts", "<template>" ++ source ++ "</template>"⟩ none).toOption.join.any fun m =>
        decide ((∀ d ∈ inputs, (d.relocate [m] m).toOption.isSome = true) ∧
          (ofDiagnostics [m] inputs).toOption.any (fun result =>
            decide (result.directives.map (·.matchCount) = [2, 0] ∧
              (unused result.directives).length = 1)) = true)) = true := by
    decide +kernel
  obtain ⟨m, hm, hcheck⟩ := Module.exists_of_any hweave
  obtain ⟨hplaced, hresult⟩ := of_decide_eq_true hcheck
  have hinputs : ∀ d ∈ inputs, ∀ n ∈ [m], Path.same n.file d.file = true →
      ∃ placed, d.relocate [m] n = .ok placed := by
    intro d hd n hn _
    obtain rfl := List.mem_singleton.1 hn
    cases hrelocate : d.relocate [n] n with
    | ok placed => exact ⟨placed, rfl⟩
    | error fault =>
      have := hplaced d hd
      rw [hrelocate] at this
      cases this
  obtain ⟨reports, result, hok, hgiven, -, -, -, -, -, -, htotal⟩ :=
    diagnostics_conserved (List.pairwise_singleton _ m) hinputs
  rw [hok] at hresult
  obtain ⟨hcounts, hunused⟩ := of_decide_eq_true hresult
  refine ⟨m, hm, hinputs, reports, result, hok, hgiven, ?_, hcounts, hunused⟩
  have := htotal fun n hn => ⟨_, _, _, _, List.mem_singleton.1 hn ▸ hm⟩
  rw [total, hcounts] at this
  exact Nat.add_right_cancel this

end Relocated

end TypedTemplate

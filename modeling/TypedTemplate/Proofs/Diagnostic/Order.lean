/-
The order of a run is of no account. Modules with files of their own are found by file whatever order they come
in, so a diagnostic goes to the same place, and the counts of a directive are numbers of diagnostics of the whole
list. Other orders of the diagnostics or of the modules change the order of what is reported and nothing else,
and modules in the order of their files are a catalog.
-/
import TypedTemplate.Proofs.Diagnostic.Conservation
import Mathlib.Data.List.Lex
import Mathlib.Data.Prod.Lex
import Mathlib.Data.String.Basic

namespace TypedTemplate

/-! ## The order of paths -/

namespace Path

/-- A component by its rank and, for names, its text. -/
def Component.key : Component → ℕ ×ₗ String
  | .root => toLex (0, "")
  | .here => toLex (1, "")
  | .up => toLex (2, "")
  | .name text => toLex (3, text)

theorem Component.key_inj {a b : Component} (h : a.key = b.key) : a = b := by
  cases a <;> cases b <;> simp_all [Component.key]

theorem Component.less_iff (a b : Component) : a.less b = true ↔ a.key < b.key := by
  cases a <;> cases b <;> simp [Component.less, Component.rank, Component.key, Prod.Lex.toLex_lt_toLex]

/-- A path by the keys of its components. -/
def key (p : String) : List (ℕ ×ₗ String) := (components p).map Component.key

theorem lessComponents_iff (as bs : List Component) :
    lessComponents as bs = true ↔ as.map Component.key < bs.map Component.key := by
  induction as generalizing bs with
  | nil => cases bs <;> simp [lessComponents]
  | cons a as ih =>
    cases bs with
    | nil => simp [lessComponents]
    | cons b bs =>
      have hkey : a = b ↔ a.key = b.key := ⟨congrArg _, Component.key_inj⟩
      simp [lessComponents, List.cons_lt_cons_iff, Component.less_iff, ih, hkey]

theorem less_iff (p q : String) : less p q = true ↔ key p < key q := lessComponents_iff _ _

theorem same_iff_key {p q : String} : same p q = true ↔ key p = key q := by
  rw [same_iff, key, key]
  exact ⟨congrArg _, fun h => List.map_injective_iff.2 (fun _ _ => Component.key_inj) h⟩

end Path

/-! ## Modules in another order -/

namespace Module

variable {modules others : List Module}

/-- In the order of their files. -/
def Sorted (modules : List Module) : Prop := modules.Pairwise fun a b => Path.less b.file a.file = false

theorem not_less_iff {a b : Module} : (!Path.less b.file a.file) = true ↔ Path.key a.file ≤ Path.key b.file := by
  rw [Bool.not_eq_true', ← Bool.not_eq_true, Path.less_iff, not_lt]

namespace Distinct

theorem perm (h : Distinct modules) (hperm : others.Perm modules) : Distinct others :=
  (hperm.pairwise_iff fun hab => Path.same_comm .. ▸ hab).2 h

/-- The module of a file is found, or none is, whatever the order of the modules. -/
theorem find?_perm (h : Distinct modules) (hperm : others.Perm modules) (file : String) :
    find? others file = find? modules file := by
  cases hfound : find? modules file with
  | none =>
    refine List.find?_eq_none.2 fun m hm => ?_
    exact List.find?_eq_none.1 hfound m (hperm.mem_iff.1 hm)
  | some m =>
    have hfile := List.find?_some (p := fun x : Module => Path.same x.file file) hfound
    exact h.find?_eq (List.mem_of_find?_eq_some hfound) hfile fun _ => hperm.mem_iff

/-- Modules with files of their own are put one after another. -/
theorem foldl_put (h : Distinct modules) : modules.foldl put [] = modules := by
  suffices hall : ∀ done, Distinct (done ++ modules) → modules.foldl put done = done ++ modules from hall [] h
  clear h
  induction modules with
  | nil => exact fun done _ => (List.append_nil done).symm
  | cons m ms ih =>
    intro done h
    have hfresh : (done.any fun n => Path.same n.file m.file) = false := by
      refine List.any_eq_false.2 fun n hn => ?_
      rw [(List.pairwise_append.1 h).2.2 n hn m List.mem_cons_self]
      exact Bool.false_ne_true
    have hnext : done ++ m :: ms = (done ++ [m]) ++ ms := by simp
    rw [List.foldl_cons, put, hfresh, if_neg Bool.false_ne_true, hnext]
    exact ih _ (hnext ▸ h)

/-- A catalog of modules is the modules in the order of their files. -/
theorem catalog_eq (h : Distinct modules) (hsorted : Sorted modules) (hperm : others.Perm modules) :
    catalog others = modules := by
  rw [catalog, (h.perm hperm).foldl_put]
  have htrans (a b c : Module) (hab : (!Path.less b.file a.file) = true)
      (hbc : (!Path.less c.file b.file) = true) : (!Path.less c.file a.file) = true :=
    not_less_iff.2 ((not_less_iff.1 hab).trans (not_less_iff.1 hbc))
  have htotal (a b : Module) : ((!Path.less b.file a.file) || !Path.less a.file b.file) = true := by
    rw [Bool.or_eq_true, not_less_iff, not_less_iff]
    exact le_total _ _
  refine List.Perm.eq_of_pairwise ?_ (List.pairwise_mergeSort htrans htotal others)
    (hsorted.imp fun hab => by rw [hab]; rfl) ((List.mergeSort_perm _ _).trans hperm)
  intro a b ha hb hab hba
  have ha : a ∈ modules := hperm.mem_iff.1 (List.mem_mergeSort.1 ha)
  exact h.eq_of_same ha hb (Path.same_iff_key.2 (le_antisymm (not_less_iff.1 hab) (not_less_iff.1 hba)))

end Distinct

end Module

/-- Where a diagnostic is put depends on which modules are found, and on nothing else of them. -/
theorem Diagnostic.relocate_congr {modules others : List Module}
    (h : ∀ file, Module.find? others file = Module.find? modules file) (m : Module) (d : Diagnostic) :
    d.relocate others m = d.relocate modules m := by
  have hrelated : RelatedPlace.relocate others = RelatedPlace.relocate modules := by
    funext r
    rw [RelatedPlace.relocate, h]
    rfl
  rw [Diagnostic.relocate, hrelated]
  rfl

namespace Relocated

variable {modules others : List Module} {inputs : List Diagnostic}

/-! ## What a run keeps and counts of each diagnostic -/

/-- What a run keeps of a diagnostic: the diagnostic at its place, unless a directive of its module covers it. -/
def keep (modules : List Module) (d : Diagnostic) : Option Diagnostic :=
  (Module.find? modules d.file).elim (some d) fun m =>
    (d.relocate modules m).toOption.filter fun placed => m.directives.all fun x => !x.covers placed

/-- Whether a directive of a module, by its number, counts a diagnostic: it is one of the module, and the
directive is the first of the module that covers it at its place. -/
def isCounted (modules : List Module) (m : Module) (i : Nat) (d : Diagnostic) : Bool :=
  Path.same m.file d.file && (d.relocate modules m).toOption.any fun placed =>
    m.directives.findIdx? (·.covers placed) == some i

/-- The directives of a module after a run. -/
def share (modules : List Module) (inputs : List Diagnostic) (m : Module) : List Directive :=
  m.directives.mapIdx fun i directive =>
    { directive with matchCount := directive.matchCount + inputs.countP (isCounted modules m i) }

/-- The diagnostics of a run can be put at their places. -/
def Placeable (modules : List Module) (inputs : List Diagnostic) : Prop :=
  ∀ d ∈ inputs, ∀ m ∈ modules, Path.same m.file d.file = true → ∃ placed, d.relocate modules m = .ok placed

section

variable (hdistinct : Module.Distinct modules) {inputs' : List Diagnostic} {r : Report}
include hdistinct

theorem placeable_of_ok {result : Relocated} (h : ofDiagnostics modules inputs = .ok result) :
    Placeable modules inputs := by
  rw [ofDiagnostics_eq] at h
  intro d hd m hm hfile
  have hfind : Module.find? modules d.file = some m := hdistinct.find?_eq hm hfile fun _ => Iff.rfl
  cases hrelocate : d.relocate modules m with
  | ok placed => exact ⟨placed, rfl⟩
  | error e =>
    -- a diagnostic that has no place ends the run
    exfalso
    have hfails : Located.ofDiagnostic modules d = .error e := by
      simp only [Located.ofDiagnostic, hfind, hrelocate, bind, Except.bind]
    obtain ⟨before, after, rfl⟩ := List.append_of_mem hd
    rw [List.mapM_append, List.mapM_cons, hfails] at h
    cases hbefore : before.mapM (Located.ofDiagnostic modules) with
    | error e' =>
      rw [hbefore] at h
      cases h
    | ok located =>
      rw [hbefore] at h
      cases h

theorem keep_eq (h : r.Stands modules) :
    keep modules r.given = if r.isFree modules then some r.placed else none := by
  rcases h with ⟨hnone, hplaced⟩ | ⟨m, hm, hfile, hplaced⟩
  · have hfind : Module.find? modules r.given.file = none :=
      List.find?_eq_none.2 fun m hm => by simp [hnone m hm]
    have hfree : r.isFree modules = true := List.all_eq_true.2 fun m hm => by simp [hnone m hm]
    rw [keep, hfind, hfree, hplaced]
    rfl
  · have hfind : Module.find? modules r.given.file = some m := hdistinct.find?_eq hm hfile fun _ => Iff.rfl
    have hfree : r.isFree modules = m.directives.all fun x => !x.covers r.placed := by
      rw [Report.isFree_eq hdistinct hm hfile, Bool.eq_iff_iff, Option.isNone_iff_eq_none,
        List.findIdx?_eq_none_iff, List.all_eq_true]
      simp
    rw [hfree, keep, hfind, Option.elim_some, hplaced]
    rfl

theorem isCounted_eq (h : r.Stands modules) {m : Module} (hm : m ∈ modules) (i : Nat) :
    isCounted modules m i r.given = r.isClaimedBy m i := by
  rw [Bool.eq_iff_iff, Report.isClaimedBy_iff, isCounted, Bool.and_eq_true, and_congr_right_iff]
  intro hfile
  have hplaced : r.given.relocate modules m = .ok r.placed := by
    rcases h with ⟨hnone, -⟩ | ⟨n, hn, hsame, hplaced⟩
    · rw [hnone m hm] at hfile
      cases hfile
    · rwa [hdistinct.eq_of_file hm hn hfile hsame]
  rw [hplaced]
  exact beq_iff_eq

/-- A run keeps and counts each diagnostic by itself. -/
theorem ofDiagnostics_eq_share (h : Placeable modules inputs) :
    ofDiagnostics modules inputs = .ok
      { diagnostics := inputs.filterMap (keep modules) ++ unused (modules.flatMap (share modules inputs))
        directives := modules.flatMap (share modules inputs) } := by
  obtain ⟨reports, result, hresult, rfl, hstands, hanswers⟩ := exists_answers hdistinct h
  have hkept : (reports.map (·.given)).filterMap (keep modules) =
      (reports.filter (·.isFree modules)).map (·.placed) := by
    rw [List.filterMap_map, ← List.filterMap_eq_filter, List.map_filterMap]
    refine List.filterMap_congr fun r hr => ?_
    rw [Function.comp_apply, keep_eq hdistinct (hstands r hr), Option.guard, apply_ite (Option.map _)]
    rfl
  have hshare : modules.flatMap (share modules (reports.map (·.given))) = claims modules reports := by
    refine List.flatMap_congr fun m hm => List.mapIdx_eq_mapIdx_iff.2 fun i _ => ?_
    rw [List.countP_map, List.countP_congr]
    exact fun r hr => by rw [Function.comp_apply, isCounted_eq hdistinct (hstands r hr) hm]
  rw [hresult, hkept, hshare, ← hanswers.directives, ← hanswers.diagnostics]

/-! ## Runs in another order -/

theorem keep_perm (hperm : others.Perm modules) : keep others = keep modules := by
  funext d
  rw [keep, keep, hdistinct.find?_perm hperm]
  cases Module.find? modules d.file with
  | none => rfl
  | some m => rw [Option.elim_some, Option.elim_some, Diagnostic.relocate_congr (hdistinct.find?_perm hperm)]

/-- The directives of a module count the same diagnostics whatever the order of the modules and of the
diagnostics. -/
theorem share_perm (hperm : others.Perm modules) (hinputs : inputs'.Perm inputs) :
    share others inputs' = share modules inputs := by
  have hcounted (m : Module) (i : Nat) : isCounted others m i = isCounted modules m i := by
    funext d
    rw [isCounted, isCounted, Diagnostic.relocate_congr (hdistinct.find?_perm hperm)]
  funext m
  refine List.mapIdx_eq_mapIdx_iff.2 fun i _ => ?_
  rw [hcounted, hinputs.countP_eq]

theorem Placeable.perm (h : Placeable modules inputs) (hperm : others.Perm modules) (hinputs : inputs'.Perm inputs) :
    Placeable others inputs' := by
  intro d hd m hm hfile
  rw [Diagnostic.relocate_congr (hdistinct.find?_perm hperm)]
  exact h d (hinputs.mem_iff.1 hd) m (hperm.mem_iff.1 hm) hfile

end

theorem unused_flatMap (f : Module → List Directive) (modules : List Module) :
    unused (modules.flatMap f) = modules.flatMap fun m => unused (f m) := by
  simp only [unused, List.filter_flatMap, List.map_flatMap]

/-- A run does not depend on order. What it keeps of a diagnostic and what a directive counts is said of each
diagnostic by itself: diagnostics in another order are kept in that order, with the same counts and the same
reports; modules in another order give the same kept diagnostics, and their directives and reports module by
module; and modules in the order of their files are run as a catalog of them. -/
theorem run_ignores_order (hdistinct : Module.Distinct modules) {result : Relocated}
    (h : ofDiagnostics modules inputs = .ok result) :
    result.diagnostics = inputs.filterMap (keep modules) ++ unused result.directives ∧
    result.directives = modules.flatMap (share modules inputs) ∧
    (∀ inputs' : List Diagnostic, inputs'.Perm inputs → ofDiagnostics modules inputs' = .ok
      { diagnostics := inputs'.filterMap (keep modules) ++ unused result.directives
        directives := result.directives }) ∧
    (∀ modules' : List Module, modules'.Perm modules → ofDiagnostics modules' inputs = .ok
      { diagnostics := inputs.filterMap (keep modules) ++
          modules'.flatMap fun m => unused (share modules inputs m)
        directives := modules'.flatMap (share modules inputs) }) ∧
    (Module.Sorted modules → ∀ entries : List Module, entries.Perm modules →
      ofDiagnostics (Module.catalog entries) inputs = .ok result) := by
  have hplaceable := placeable_of_ok hdistinct h
  have hrun {modules' : List Module} {inputs' : List Diagnostic} (hmodules : modules'.Perm modules)
      (hinputs : inputs'.Perm inputs) : ofDiagnostics modules' inputs' = .ok
        { diagnostics := inputs'.filterMap (keep modules) ++ unused (modules'.flatMap (share modules inputs))
          directives := modules'.flatMap (share modules inputs) } := by
    rw [ofDiagnostics_eq_share (hdistinct.perm hmodules) (hplaceable.perm hdistinct hmodules hinputs),
      keep_perm hdistinct hmodules, share_perm hdistinct hmodules hinputs]
  obtain rfl := Except.ok.inj (h.symm.trans (hrun (.refl _) (.refl _)))
  refine ⟨rfl, rfl, fun inputs' hperm => hrun (.refl _) hperm, ?_, ?_⟩
  · intro modules' hperm
    rw [hrun hperm (.refl _), unused_flatMap]
  · intro hsorted entries hperm
    rw [hdistinct.catalog_eq hsorted hperm]
    exact h

/-- Two modules with a directive each. The one of the second module covers both diagnostics of its file, from
whichever side the diagnostics and the modules are read. -/
theorem run_ignores_order_reversed :
    let source := "<template>\x7b\x7b! @glint-expect-error \x7d\x7d\x7b\x7b@a.b\x7d\x7d</template>"
    let weave (file : String) := Module.weave { native := some { typesModule := "types" } } ⟨file, source⟩ none
    let d (file : String) (start length : Nat) : Diagnostic :=
      { file, start, length, message := "no such key", code := 2339 }
    let inputs := [d "b.gts" 190 1, d "c.ts" 3 1, d "b.gts" 0 4]
    ∃ a b result, weave "a.gts" = .ok (some a) ∧ weave "b.gts" = .ok (some b) ∧ Module.Distinct [a, b] ∧
      ofDiagnostics [a, b] inputs = .ok result ∧ result.directives.map (·.matchCount) = [0, 2] ∧
      (ofDiagnostics [a, b] inputs.reverse).map (·.directives) = .ok result.directives ∧
      (ofDiagnostics [b, a] inputs).map (·.directives.map (·.matchCount)) = .ok [2, 0] ∧
      ofDiagnostics (Module.catalog [b, a]) inputs = .ok result := by
  intro source weave d inputs
  have hweave : ((weave "a.gts").toOption.join.any fun a => (weave "b.gts").toOption.join.any fun b =>
      decide (Path.same a.file b.file = false ∧ Path.less b.file a.file = false ∧
        (share [a, b] inputs a).map (·.matchCount) = [0] ∧ (share [a, b] inputs b).map (·.matchCount) = [2] ∧
        (ofDiagnostics [a, b] inputs).toOption.isSome = true)) = true := by
    decide +kernel
  obtain ⟨a, ha, hweave⟩ := Module.exists_of_any hweave
  obtain ⟨b, hb, hcheck⟩ := Module.exists_of_any hweave
  obtain ⟨hfiles, hless, hshareA, hshareB, hruns⟩ := of_decide_eq_true hcheck
  have hdistinct : Module.Distinct [a, b] := List.pairwise_pair.2 hfiles
  cases hresult : ofDiagnostics [a, b] inputs with
  | error fault =>
    rw [hresult] at hruns
    cases hruns
  | ok result =>
    obtain ⟨-, hdirectives, hinputs, hmodules, hcatalog⟩ := run_ignores_order hdistinct hresult
    refine ⟨a, b, result, ha, hb, hdistinct, hresult, ?_, ?_, ?_, ?_⟩
    · rw [hdirectives, List.map_flatMap]
      simp [hshareA, hshareB]
    · rw [hinputs _ (List.reverse_perm _)]
      rfl
    · rw [hmodules _ (List.Perm.swap a b [])]
      refine congrArg Except.ok ((List.map_flatMap ..).trans ?_)
      simp [hshareA, hshareB]
    · exact hcatalog (List.pairwise_pair.2 hless) _ (List.Perm.swap a b [])

end Relocated

end TypedTemplate

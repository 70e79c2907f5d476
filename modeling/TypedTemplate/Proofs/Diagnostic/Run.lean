/-
What a run comes to. A run goes through its diagnostics one by one and counts in a table of directives as it
goes. What a directive has counted does not change what it covers, so the table never decides where a diagnostic
goes: a run is described by its diagnostics at their places, each with the directive that covers it, and the
counts are those of the whole list.
-/
import TypedTemplate.Diagnostic.Relocation
import TypedTemplate.Proofs.Module.Position

namespace TypedTemplate

namespace Path

variable {p q : String}

theorem same_congr_left (h : same p q = true) (r : String) : same p r = same q r := by
  rw [same, same, same_iff.1 h]

theorem same_congr_right (h : same p q = true) (r : String) : same r p = same r q := by
  rw [same, same, same_iff.1 h]

end Path

/-! ## Modules by file -/

namespace Module

/-- The first module of each file. -/
def firsts : List Module → List Module
  | [] => []
  | m :: ms => m :: (firsts ms).filter fun n => !Path.same n.file m.file

/-- The directives of a file's module; of two modules the last one counts. -/
def directivesOf (modules : List Module) (file : String) : List Directive :=
  ((modules.reverse.find? fun m => Path.same m.file file).map (·.directives)).getD []

variable {modules : List Module} {file other : String}

theorem directivesOf_of_same (h : Path.same file other = true) :
    directivesOf modules file = directivesOf modules other := by
  simp only [directivesOf, Path.same_congr_right h]

/-- Putting a module changes what is found for its file, and nothing else. -/
theorem find?_put (m : Module) : (put modules m).find? (fun n => Path.same n.file file) =
    if Path.same m.file file then some m else modules.find? fun n => Path.same n.file file := by
  unfold put
  split
  · rename_i hany
    obtain ⟨n, hn, hsame⟩ := List.any_eq_true.1 hany
    have hkeeps : (fun n : Module => Path.same n.file file) ∘
        (fun n => if Path.same n.file m.file then m else n) = fun n => Path.same n.file file := by
      funext k
      simp only [Function.comp_apply]
      split
      · rename_i hk
        exact (Path.same_congr_left hk _).symm
      · rfl
    rw [List.find?_map, hkeeps, ← Path.same_congr_left hsame]
    cases hfound : modules.find? fun n => Path.same n.file file with
    | none =>
      have hnot := List.find?_eq_none.1 hfound n hn
      rw [if_neg hnot]
      rfl
    | some k =>
      have hk : Path.same k.file file = true :=
        List.find?_some (p := fun n : Module => Path.same n.file file) hfound
      -- what was found is replaced if the module is of the same file, and it is of that file
      rw [Option.map_some, ← Path.same_congr_right hsame, Path.same_comm k.file, Path.same_congr_right hk]
      split <;> rfl
  · rename_i hany
    have hnone (n : Module) (hn : n ∈ modules) : Path.same n.file m.file = false := by
      simpa using fun h => hany (List.any_eq_true.2 ⟨n, hn, h⟩)
    rw [List.find?_append]
    split
    · rename_i hm
      have hfresh : modules.find? (fun n => Path.same n.file file) = none := by
        refine List.find?_eq_none.2 fun n hn => ?_
        rw [← Path.same_congr_right hm, hnone n hn]
        exact Bool.false_ne_true
      rw [hfresh, Option.none_or, List.find?_cons, hm]
    · rename_i hm
      rw [List.find?_cons, Bool.eq_false_iff.2 hm, List.find?_nil, Option.or_none]

/-- Of the modules put one after another, the last one of a file is found. -/
theorem find?_foldl_put (modules : List Module) (file : String) :
    (modules.foldl put []).find? (fun m => Path.same m.file file) =
      modules.reverse.find? fun m => Path.same m.file file := by
  induction modules using List.reverseRecOn with
  | nil => rfl
  | append_singleton ms m ih =>
    rw [List.foldl_append, List.foldl_cons, List.foldl_nil, find?_put, ih, List.reverse_append,
      List.reverse_singleton, List.singleton_append, List.find?_cons]
    cases Path.same m.file file <;> rfl

end Module

/-! ## Tables of directives -/

namespace Tally

variable {t : Tally} {file other : String}

theorem get_ofModules (modules : List Module) (file : String) :
    (ofModules modules).get file = Module.directivesOf modules file := by
  rw [get, ofModules, List.find?_map, Option.map_map, Module.directivesOf, ← Module.find?_foldl_put]
  rfl

/-- Other directives of a file are found for that file only, if it has any. -/
theorem get_set (h : t.get file ≠ []) (directives : List Directive) (other : String) :
    (t.set file directives).get other = if Path.same file other then directives else t.get other := by
  have hkeeps : (fun entry : String × List Directive => Path.same entry.1 other) ∘
      (fun entry => if Path.same entry.1 file then (entry.1, directives) else entry) =
        fun entry => Path.same entry.1 other := by
    funext entry
    simp only [Function.comp_apply]
    split <;> rfl
  rw [get, set, List.find?_map, hkeeps]
  split
  · rename_i hsame
    rw [show (fun entry : String × List Directive => Path.same entry.1 other) =
      fun entry => Path.same entry.1 file from funext fun e => (Path.same_congr_right hsame e.1).symm]
    cases hfound : t.find? fun entry => Path.same entry.1 file with
    | none => exact absurd (by rw [get, hfound]; rfl) h
    | some entry =>
      have hentry := List.find?_some (p := fun e : String × List Directive => Path.same e.1 file) hfound
      simp only [Option.map_some, Option.getD_some, hentry, if_true]
  · rename_i hsame
    rw [get]
    cases hfound : t.find? fun entry => Path.same entry.1 other with
    | none => rfl
    | some entry =>
      have hentry := List.find?_some (p := fun e : String × List Directive => Path.same e.1 other) hfound
      have hother : ¬Path.same entry.1 file = true := by
        rwa [Path.same_comm, Path.same_congr_right hentry]
      simp only [Option.map_some, if_neg hother]

theorem get_remove (t : Tally) (file other : String) :
    (t.remove file).get other = if Path.same file other then [] else t.get other := by
  rw [get, get, remove, List.find?_filter]
  split
  · rename_i hsame
    rw [List.find?_eq_none.2]
    · rfl
    · intro entry _
      simp [Path.same_congr_right hsame]
  · rename_i hsame
    congr 2
    refine congrArg (List.find? · t) (funext fun entry => ?_)
    cases hentry : Path.same entry.1 other with
    | false => simp
    | true =>
      have hother : Path.same entry.1 file = false := by
        rw [Path.same_comm, Path.same_congr_right hentry]
        exact Bool.eq_false_iff.2 hsame
      simp [hother]

/-- Taking out the directives of modules one after another gives those of each file once. -/
theorem drain_eq (t : Tally) (ms : List Module) :
    t.drain ms = (Module.firsts ms).flatMap fun m => t.get m.file := by
  induction ms generalizing t with
  | nil => rfl
  | cons m ms ih =>
    rw [drain, Module.firsts, List.flatMap_cons, ih]
    congr 1
    generalize Module.firsts ms = rest
    induction rest with
    | nil => rfl
    | cons n rest ih =>
      rw [List.flatMap_cons, ih, get_remove, Path.same_comm, List.filter_cons]
      cases Path.same n.file m.file <;> rfl

end Tally

/-! ## Counting for the first directive -/

namespace Directive

/-- A directive that has counted one more. -/
def count (directive : Directive) : Directive := { directive with matchCount := directive.matchCount + 1 }

theorem countFirst?_eq (d : Diagnostic) (directives : List Directive) :
    countFirst? d directives = (directives.findIdx? (·.covers d)).map fun i => directives.modify i count := by
  induction directives with
  | nil => rfl
  | cons directive rest ih =>
    rw [countFirst?, ih, List.findIdx?_cons]
    split
    · rfl
    · rw [Option.map_map, Option.map_map]
      rfl

end Directive

/-! ## Diagnostics at their places -/

/-- A diagnostic at its place, and which directive covers it: the file of the module and the number of
the directive among those of the module. -/
structure Located where
  diagnostic : Diagnostic
  coveredBy : Option (String × Nat) := none

namespace Located

/-- Diagnostics of files without a module stay as they are. -/
def ofDiagnostic (modules : List Module) (d : Diagnostic) : Except PositionFault Located :=
  match Module.find? modules d.file with
  | none => .ok ⟨d, none⟩
  | some m => do
    let d ← d.relocate modules m
    let found := (Module.directivesOf modules m.file).findIdx? (·.covers d)
    return ⟨d, found.map fun i => (m.file, i)⟩

/-- Whether it is the given directive of a file's module that covers the diagnostic. -/
def isCoveredBy (l : Located) (file : String) (i : Nat) : Bool :=
  match l.coveredBy with
  | some (f, j) => Path.same f file && i == j
  | none => false

end Located

namespace Relocated

/-- The directives of a file's module, each with the diagnostics that it covers added to its count. -/
def counted (modules : List Module) (located : List Located) (file : String) : List Directive :=
  (Module.directivesOf modules file).mapIdx fun i directive =>
    { directive with
      matchCount := directive.matchCount + (located.filter (·.isCoveredBy file i)).length }

/-- The result for diagnostics at their places. -/
def ofLocated (modules : List Module) (located : List Located) : Relocated :=
  let directives := (Module.firsts modules).flatMap fun m => counted modules located m.file
  let kept := located.filter (·.coveredBy.isNone)
  let unused := directives.filter fun d => d.kind = .expectError ∧ d.matchCount = 0
  { diagnostics := kept.map (·.diagnostic) ++ unused.map .unused
    directives }

variable {modules : List Module} {located : List Located} {l : Located} {file other : String} {i : Nat}

theorem counted_nil (modules : List Module) (file : String) :
    counted modules [] file = Module.directivesOf modules file :=
  List.ext_getElem? fun i => by simp [counted]

/-- What directives have counted does not change what they cover. -/
theorem findIdx?_counted (d : Diagnostic) : (counted modules located file).findIdx? (·.covers d) =
    (Module.directivesOf modules file).findIdx? (·.covers d) := by
  suffices h : ∀ (directives : List Directive) (counts : Nat → Nat),
      (directives.mapIdx fun i directive =>
        { directive with matchCount := directive.matchCount + counts i }).findIdx? (·.covers d) =
        directives.findIdx? (·.covers d) from h _ _
  intro directives
  induction directives with
  | nil => exact fun _ => rfl
  | cons directive rest ih =>
    intro counts
    rw [List.mapIdx_cons, List.findIdx?_cons, List.findIdx?_cons, ih fun i => counts (i + 1)]
    rfl

/-- A diagnostic that nothing covers does not count. -/
theorem counted_of_kept (h : l.coveredBy = none) : counted modules (located ++ [l]) file =
    counted modules located file := by
  have hnot (i : Nat) : l.isCoveredBy file i = false := by rw [Located.isCoveredBy, h]
  simp [counted, List.filter_append, hnot]

/-- A diagnostic that is covered counts for one directive of one file. -/
theorem counted_of_covered (h : l.coveredBy = some (file, i)) (other : String) :
    counted modules (located ++ [l]) other = if Path.same file other then
      (counted modules located file).modify i Directive.count else counted modules located other := by
  split
  · rename_i hsame
    have hcovered (k : Located) (j : Nat) : k.isCoveredBy other j = k.isCoveredBy file j := by
      simp only [Located.isCoveredBy, Path.same_congr_right hsame]
    have hself (j : Nat) : l.isCoveredBy file j = (j == i) := by
      rw [Located.isCoveredBy, h]
      simp [Path.same_self]
    refine List.ext_getElem? fun j => ?_
    simp only [counted, ← Module.directivesOf_of_same hsame, hcovered, List.getElem?_modify, List.getElem?_mapIdx,
      List.filter_append, List.length_append, List.filter_singleton, hself]
    by_cases hj : j = i
    · subst hj
      cases (Module.directivesOf modules file)[j]? <;> simp [Directive.count, Nat.add_assoc]
    · have hne : (j == i) = false := beq_eq_false_iff_ne.2 hj
      cases (Module.directivesOf modules file)[j]? <;> simp [hne, Ne.symm hj]
  · rename_i hsame
    have hnot (j : Nat) : l.isCoveredBy other j = false := by
      rw [Located.isCoveredBy, h]
      simp [hsame]
    simp [counted, List.filter_append, hnot]

/-! ## The run -/

/-- A run that has put these diagnostics at their places. -/
structure Progress.Reflects (modules : List Module) (located : List Located) (s : Progress) : Prop where
  kept : s.kept = ((located.filter (·.coveredBy.isNone)).map (·.diagnostic)).reverse
  tally : ∀ file, s.tally.get file = counted modules located file

namespace Progress.Reflects

variable {s : Progress} {d : Diagnostic}

theorem start (modules : List Module) : Reflects modules [] { tally := .ofModules modules } where
  kept := rfl
  tally file := by rw [Tally.get_ofModules, counted_nil]

variable (h : s.Reflects modules located)
include h

theorem keep (hl : l.coveredBy = none) :
    Reflects modules (located ++ [l]) { s with kept := l.diagnostic :: s.kept } where
  kept := by simp [h.kept, List.filter_append, hl]
  tally file := by rw [counted_of_kept hl, h.tally]

theorem count {directives : List Directive} (hl : l.coveredBy = some (file, i)) (hfile : s.tally.get file ≠ [])
    (hdirectives : directives = (s.tally.get file).modify i Directive.count) :
    Reflects modules (located ++ [l]) { s with tally := s.tally.set file directives } where
  kept := by simp [h.kept, List.filter_append, hl]
  tally other := by rw [Tally.get_set hfile, hdirectives, counted_of_covered hl, h.tally, h.tally]

/-- A turn puts a diagnostic at its place, or fails as placing it does, whatever the table holds. -/
theorem turn (d : Diagnostic) :
    (∃ l s', Located.ofDiagnostic modules d = .ok l ∧ Relocated.turn modules s d = .ok s' ∧
        s'.Reflects modules (located ++ [l])) ∨
      ∃ e, Located.ofDiagnostic modules d = .error e ∧ Relocated.turn modules s d = .error e := by
  unfold Located.ofDiagnostic Relocated.turn
  cases Module.find? modules d.file with
  | none => exact .inl ⟨⟨d, none⟩, _, rfl, rfl, h.keep rfl⟩
  | some m =>
    dsimp only
    cases d.relocate modules m with
    | error e => exact .inr ⟨e, rfl, rfl⟩
    | ok placed =>
      have hfirst := Directive.countFirst?_eq placed (s.tally.get m.file)
      rw [h.tally, findIdx?_counted, ← h.tally] at hfirst
      simp only [bind, Except.bind, hfirst]
      cases hfound : (Module.directivesOf modules m.file).findIdx? (·.covers placed) with
      | none => exact .inl ⟨⟨placed, none⟩, _, rfl, rfl, h.keep rfl⟩
      | some i =>
        refine .inl ⟨⟨placed, some (m.file, i)⟩, _, rfl, rfl, h.count rfl ?_ rfl⟩
        rw [h.tally]
        intro hnil
        have hcovers : (counted modules located m.file).findIdx? (·.covers placed) = some i := by
          rw [findIdx?_counted, hfound]
        rw [hnil] at hcovers
        cases hcovers

/-- A run puts its diagnostics at their places one by one. -/
theorem run (ds : List Diagnostic) :
    (∃ more s', ds.mapM (Located.ofDiagnostic modules) = .ok more ∧
        ds.foldlM (Relocated.turn modules) s = .ok s' ∧ s'.Reflects modules (located ++ more)) ∨
      ∃ e, ds.mapM (Located.ofDiagnostic modules) = .error e ∧
        ds.foldlM (Relocated.turn modules) s = .error e := by
  induction ds generalizing s located with
  | nil => exact .inl ⟨[], s, rfl, rfl, (List.append_nil located).symm ▸ h⟩
  | cons d ds ih =>
    rw [List.mapM_cons, List.foldlM_cons]
    rcases h.turn d with ⟨l, s', hl, hs', h'⟩ | ⟨e, hl, hs'⟩
    · rw [hl, hs']
      rcases ih h' with ⟨more, s'', hmore, hrun, h''⟩ | ⟨e, hmore, hrun⟩
      · refine .inl ⟨l :: more, s'', ?_, hrun, ?_⟩
        · show (do let more ← ds.mapM (Located.ofDiagnostic modules); pure (l :: more)) = _
          rw [hmore]
          rfl
        · rwa [List.append_assoc] at h''
      · refine .inr ⟨e, ?_, hrun⟩
        show (do let more ← ds.mapM (Located.ofDiagnostic modules); pure (l :: more)) = _
        rw [hmore]
        rfl
    · exact .inr ⟨e, by rw [hl]; rfl, by rw [hs']; rfl⟩

end Progress.Reflects

/-- A run comes to the result for its diagnostics at their places. -/
theorem ofDiagnostics_eq (modules : List Module) (diagnostics : List Diagnostic) :
    ofDiagnostics modules diagnostics =
      (diagnostics.mapM (Located.ofDiagnostic modules)).map (ofLocated modules) := by
  unfold ofDiagnostics
  rcases (Progress.Reflects.start modules).run diagnostics with ⟨located, s, hlocated, hrun, h⟩ | ⟨e, hlocated, hrun⟩
  · rw [hlocated, hrun]
    rw [List.nil_append] at h
    simp only [bind, Except.bind, Except.map, pure, Except.pure, ofLocated, h.kept, List.reverse_reverse,
      Tally.drain_eq, h.tally]
  · rw [hlocated, hrun]
    rfl

end Relocated

end TypedTemplate

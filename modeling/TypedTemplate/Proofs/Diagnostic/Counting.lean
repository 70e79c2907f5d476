/-
What a covered diagnostic does to a run. The modules of a run have files of their own, so a diagnostic finds
its module, and it is held against the directives of that module. If one of them covers it, the run keeps the
same diagnostics as without it, and counts one more for that directive and for no other.
-/
import TypedTemplate.Proofs.Diagnostic.Run

namespace TypedTemplate

/-! ## Modules with files of their own -/

namespace Module

/-- No two of the modules belong to one file. -/
def Distinct (modules : List Module) : Prop := modules.Pairwise fun a b => Path.same a.file b.file = false

namespace Distinct

variable {modules : List Module} {m : Module} {file : String}

variable (h : Distinct modules)
include h

theorem eq_of_same {a b : Module} (ha : a ∈ modules) (hb : b ∈ modules) (hsame : Path.same a.file b.file = true) :
    a = b := by
  have hpairwise : modules.Pairwise fun a b => Path.same a.file b.file = true → a = b :=
    h.imp fun hab hsame => by rw [hab] at hsame; cases hsame
  have : Std.Symm fun a b : Module => Path.same a.file b.file = true → a = b :=
    ⟨fun a b hab hsame => (hab (Path.same_comm .. ▸ hsame)).symm⟩
  exact hpairwise.forall_of_forall (fun _ _ _ => rfl) ha hb hsame

theorem eq_of_file {a b : Module} (ha : a ∈ modules) (hb : b ∈ modules) (hfile : Path.same a.file file = true)
    (hfile' : Path.same b.file file = true) : a = b :=
  h.eq_of_same ha hb (Path.same_iff.2 ((Path.same_iff.1 hfile).trans (Path.same_iff.1 hfile').symm))

/-- The module of a file is found, whatever the order of the modules. -/
theorem find?_eq (hm : m ∈ modules) (hfile : Path.same m.file file = true) {xs : List Module}
    (hxs : ∀ x, x ∈ xs ↔ x ∈ modules) : xs.find? (fun x => Path.same x.file file) = some m := by
  cases hfound : xs.find? fun x => Path.same x.file file with
  | none => exact absurd hfile (List.find?_eq_none.1 hfound m ((hxs m).2 hm))
  | some x =>
    have hx := (hxs x).1 (List.mem_of_find?_eq_some hfound)
    have hsame : Path.same x.file file = true :=
      List.find?_some (p := fun x : Module => Path.same x.file file) hfound
    rw [h.eq_of_file hx hm hsame hfile]

theorem directivesOf_eq (hm : m ∈ modules) : directivesOf modules m.file = m.directives := by
  rw [directivesOf, h.find?_eq hm (Path.same_self _) fun x => List.mem_reverse]
  rfl

theorem firsts_eq : firsts modules = modules := by
  induction modules with
  | nil => rfl
  | cons m ms ih =>
    obtain ⟨hm, hms⟩ := List.pairwise_cons.1 h
    rw [firsts, ih hms, List.filter_eq_self.2]
    intro n hn
    rw [Path.same_comm, hm n hn]
    rfl

end Distinct

end Module

/-! ## One more diagnostic -/

namespace Located

theorem isCoveredBy_of_same {l : Located} {file other : String} {i j : Nat}
    (hl : l.coveredBy = some (file, i)) (hfile : Path.same file other = false) :
    l.isCoveredBy other j = false := by
  rw [isCoveredBy, hl]
  simp [hfile]

theorem isCoveredBy_self {l : Located} {file : String} {i j : Nat}
    (hl : l.coveredBy = some (file, i)) : l.isCoveredBy file j = (j == i) := by
  rw [isCoveredBy, hl]
  simp [Path.same_self]

end Located

namespace Relocated

variable {modules : List Module} {xs ys : List Located} {l : Located} {file : String} {i : Nat}

theorem length_filter_insert (p : Located → Bool) :
    ((xs ++ l :: ys).filter p).length = ((xs ++ ys).filter p).length + if p l then 1 else 0 := by
  rw [List.filter_append, List.filter_append, List.filter_cons]
  split <;> simp only [List.length_append, List.length_cons] <;> omega

/-- A diagnostic that is covered elsewhere does not count here. -/
theorem counted_of_same (hl : l.coveredBy = some (file, i)) {other : String}
    (hfile : Path.same file other = false) :
    counted modules (xs ++ l :: ys) other = counted modules (xs ++ ys) other := by
  unfold counted
  refine List.mapIdx_eq_mapIdx_iff.2 fun j _ => ?_
  rw [length_filter_insert, Located.isCoveredBy_of_same hl hfile]
  rfl

/-- Where it is covered it counts for one directive. -/
theorem counted_self (xs ys : List Located) (hl : l.coveredBy = some (file, i)) {front back : List Directive} {directive : Directive}
    (hdirectives : Module.directivesOf modules file = front ++ directive :: back) (hi : front.length = i) :
    ∃ before after count,
      counted modules (xs ++ ys) file = before ++ { directive with matchCount := count } :: after ∧
      counted modules (xs ++ l :: ys) file =
        before ++ { directive with matchCount := count + 1 } :: after := by
  subst hi
  have hsame (j : Nat) (hj : j ≠ front.length) : ((xs ++ l :: ys).filter (·.isCoveredBy file j)).length =
      ((xs ++ ys).filter (·.isCoveredBy file j)).length := by
    rw [length_filter_insert, Located.isCoveredBy_self hl, if_neg (by simpa using hj)]
    rfl
  unfold counted
  rw [hdirectives]
  simp only [List.mapIdx_append, List.mapIdx_cons]
  refine ⟨_, _, _, rfl, ?_⟩
  rw [length_filter_insert, Located.isCoveredBy_self hl, if_pos (by simp)]
  congr 1
  · refine List.mapIdx_eq_mapIdx_iff.2 fun j hj => ?_
    rw [hsame j hj.ne]
  · congr 1
    refine List.mapIdx_eq_mapIdx_iff.2 fun j _ => ?_
    rw [hsame _ (by omega)]

/-- What is reported of directives that expect an error and cover none. -/
def unused (directives : List Directive) : List Diagnostic :=
  (directives.filter fun d => d.kind = .expectError ∧ d.matchCount = 0).map .unused

/-- The results of two runs, of which the second keeps the same diagnostics and counts one more for one
directive, which covers `d`. -/
def Absorbs (d : Diagnostic) (r r' : Relocated) : Prop :=
  ∃ kept before directive after, directive.covers d = true ∧
    r.directives = before ++ directive :: after ∧
    r'.directives = before ++ { directive with matchCount := directive.matchCount + 1 } :: after ∧
    r.diagnostics = kept ++ unused r.directives ∧ r'.diagnostics = kept ++ unused r'.directives

/-- A diagnostic that is covered is absorbed. -/
theorem absorbs_of_covered {m : Module} (hdistinct : Module.Distinct modules) (hm : m ∈ modules)
    (hl : l.coveredBy = some (m.file, i)) {directive : Directive} (hi : m.directives[i]? = some directive)
    (hcovers : directive.covers l.diagnostic = true) :
    Absorbs l.diagnostic (ofLocated modules (xs ++ ys)) (ofLocated modules (xs ++ l :: ys)) := by
  obtain ⟨hlt, rfl⟩ := List.getElem?_eq_some_iff.1 hi
  have hsplit : Module.directivesOf modules m.file =
      m.directives.take i ++ m.directives[i] :: m.directives.drop (i + 1) := by
    rw [hdistinct.directivesOf_eq hm, ← List.drop_eq_getElem_cons hlt, List.take_append_drop]
  have hlength : (m.directives.take i).length = i := by rw [List.length_take]; omega
  obtain ⟨front, back, count, hwithout, hwith⟩ := counted_self xs ys hl hsplit hlength
  obtain ⟨before, after, rfl⟩ := List.append_of_mem hm
  obtain ⟨-, hafter, hbefore⟩ := List.pairwise_append.1 hdistinct
  -- the directives of the other modules are counted as before
  have hothers (n : Module) (hn : Path.same m.file n.file = false) :
      counted (before ++ m :: after) (xs ++ l :: ys) n.file =
        counted (before ++ m :: after) (xs ++ ys) n.file := counted_of_same hl hn
  have hb : before.flatMap (fun n => counted (before ++ m :: after) (xs ++ l :: ys) n.file) =
      before.flatMap fun n => counted (before ++ m :: after) (xs ++ ys) n.file :=
    List.flatMap_congr fun n hn => hothers n (Path.same_comm .. ▸ hbefore n hn m List.mem_cons_self)
  have ha : after.flatMap (fun n => counted (before ++ m :: after) (xs ++ l :: ys) n.file) =
      after.flatMap fun n => counted (before ++ m :: after) (xs ++ ys) n.file :=
    List.flatMap_congr fun n hn => hothers n ((List.pairwise_cons.1 hafter).1 n hn)
  have hkept : ((xs ++ l :: ys).filter (·.coveredBy.isNone)) = (xs ++ ys).filter (·.coveredBy.isNone) := by
    rw [List.filter_append, List.filter_append, List.filter_cons_of_neg (by rw [hl]; simp)]
  refine ⟨((xs ++ ys).filter (·.coveredBy.isNone)).map (·.diagnostic),
    before.flatMap (fun n => counted (before ++ m :: after) (xs ++ ys) n.file) ++ front,
    { m.directives[i] with matchCount := count },
    back ++ after.flatMap (fun n => counted (before ++ m :: after) (xs ++ ys) n.file), hcovers, ?_, ?_, rfl, ?_⟩
  · simp only [ofLocated, hdistinct.firsts_eq, List.flatMap_append, List.flatMap_cons, hwithout]
    simp only [List.append_assoc, List.cons_append]
  · simp only [ofLocated, hdistinct.firsts_eq, List.flatMap_append, List.flatMap_cons, hwith, hb, ha]
    simp only [List.append_assoc, List.cons_append]
  · simp only [ofLocated, hkept, unused]

/-- One more diagnostic in a run. -/
theorem ofDiagnostics_insert {before after : List Diagnostic} {d : Diagnostic} {without : Relocated}
    (h : ofDiagnostics modules (before ++ after) = .ok without)
    (hd : Located.ofDiagnostic modules d = .ok l) :
    ∃ xs ys, without = ofLocated modules (xs ++ ys) ∧
      ofDiagnostics modules (before ++ d :: after) = .ok (ofLocated modules (xs ++ l :: ys)) := by
  rw [ofDiagnostics_eq, List.mapM_append] at h ⊢
  rw [List.mapM_cons, hd]
  cases hbefore : before.mapM (Located.ofDiagnostic modules) with
  | error e =>
    rw [hbefore] at h
    cases h
  | ok xs =>
    cases hafter : after.mapM (Located.ofDiagnostic modules) with
    | error e =>
      rw [hbefore, hafter] at h
      cases h
    | ok ys =>
      rw [hbefore, hafter] at h
      cases h
      exact ⟨xs, ys, rfl, rfl⟩

/-- A diagnostic of a module that one of its directives covers, at its place, is absorbed. -/
theorem absorbs {m : Module} (hdistinct : Module.Distinct modules) (hm : m ∈ modules)
    {before after : List Diagnostic} {d placed : Diagnostic} {without : Relocated}
    (hfile : Path.same m.file d.file = true) (hplaced : d.relocate modules m = .ok placed)
    (hcovers : ∃ directive ∈ m.directives, directive.covers placed = true)
    (h : ofDiagnostics modules (before ++ after) = .ok without) :
    ∃ result, ofDiagnostics modules (before ++ d :: after) = .ok result ∧
      Absorbs placed without result := by
  obtain ⟨i, hi⟩ : ∃ i, m.directives.findIdx? (·.covers placed) = some i := by
    rw [← Option.isSome_iff_exists, List.findIdx?_isSome]
    exact List.any_eq_true.2 hcovers
  have hfind : Module.find? modules d.file = some m := hdistinct.find?_eq hm hfile fun _ => Iff.rfl
  have hd : Located.ofDiagnostic modules d = .ok { diagnostic := placed, coveredBy := some (m.file, i) } := by
    simp only [Located.ofDiagnostic, hfind, hplaced, bind, Except.bind, hdistinct.directivesOf_eq hm, hi]
    rfl
  obtain ⟨xs, ys, rfl, hwith⟩ := ofDiagnostics_insert h hd
  obtain ⟨hlt, hcovered, -⟩ := List.findIdx?_eq_some_iff_getElem.1 hi
  refine ⟨_, hwith, ?_⟩
  exact absorbs_of_covered (l := ⟨placed, some (m.file, i)⟩) hdistinct hm rfl
    (List.getElem?_eq_getElem hlt) hcovered

end Relocated

end TypedTemplate

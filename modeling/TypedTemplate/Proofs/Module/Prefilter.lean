/-
A text that cannot hold a template has none. The scan for native templates passes over a text without an
opening tag, whatever it has to pass over on the way, and such a text is not even read as a script. So a
check that leaves a script alone for its text gives what weaving it gives.
-/
import TypedTemplate.Check
import TypedTemplate.Proofs.Companion
import TypedTemplate.Proofs.Script.Native

namespace TypedTemplate

/-! ## The scan -/

namespace Script.Native

open Text

theorem exists_codeStep {p : Progress} {c : Char} {cs : List Char} (h : atOpenTag (c :: cs) = false) :
    ∃ s, codeStep p c cs = .ok s ∧ s.found = none := by
  unfold codeStep
  simp only [h, Bool.false_eq_true, if_false]
  repeat' split
  all_goals exact ⟨_, rfl, rfl⟩

/-- Where no opening tag stands a step goes on, and finds nothing. -/
theorem exists_step {p : Progress} {c : Char} {cs : List Char} (h : ¬ openTag <+: c :: cs) :
    ∃ s, step p c cs = .ok s ∧ s.found = none := by
  have hopen : atOpenTag (c :: cs) = false := by
    by_contra hopen
    exact h (openTag_of_atOpenTag (Bool.eq_true_of_not_eq_false hopen))
  unfold step
  split
  · unfold literalStep
    repeat' split
    all_goals exact ⟨_, rfl, rfl⟩
  · exact exists_codeStep hopen

theorem scanFrom_eq_nil {p : Progress} {cs : List Char} (h : ¬ openTag <:+: cs) :
    scanFrom p cs = .ok [] := by
  fun_induction scanFrom p cs with
  | case1 => rfl
  | case2 p c cs e hstep =>
    obtain ⟨s, hs, -⟩ := exists_step (p := p) fun hopen => h hopen.isInfix
    rw [hs] at hstep
    cases hstep
  | case3 p c cs s hstep ih =>
    obtain ⟨s', hs', hfound⟩ := exists_step (p := p) fun hopen => h hopen.isInfix
    obtain rfl : s' = s := Except.ok.inj (hs'.symm.trans hstep)
    -- what a step leaves is a stretch of the text too, however much it takes
    have hrest : cs.drop s'.taken <:+: c :: cs :=
      ((List.drop_suffix _ _).trans (List.suffix_cons c cs)).isInfix
    rw [ih fun hopen => h (hopen.trans hrest), hfound]
    rfl

theorem scan_eq_nil {source : String} (h : ¬ openTag <:+: source.toList) : scan source = .ok [] :=
  scanFrom_eq_nil h

end Script.Native

/-! ## Weaving -/

namespace Module

open Script

theorem nativeTemplates_eq_nil {env : Environment} {script : SourceFile}
    (h : env.mayEmbed script.contents = false) : nativeTemplates env script = .ok [] := by
  unfold nativeTemplates
  split
  · rfl
  · rename_i dialect hnative
    have hopen : ¬ Native.openTag <:+: script.contents.toList := by
      intro hopen
      have hoccurs : Text.occursIn "<template".toList script.contents.toList = true :=
        Text.occursIn_iff.2 hopen
      rw [Environment.mayEmbed, hnative, hoccurs, Option.isSome_some, Bool.and_self, Bool.or_true] at h
      cases h
    rw [Native.scan_eq_nil hopen]

theorem weaveWith_eq_none {env : Environment} {script : SourceFile} (h : env.mayEmbed script.contents = false)
    (reader : ScriptReader) : weaveWith reader env script none = .ok none := by
  have htag : env.mentionsTag script.contents = false := (Bool.or_eq_false_iff.1 h).1
  unfold weaveWith
  rw [nativeTemplates_eq_nil h, htag]
  rfl

theorem weave_eq_none {env : Environment} {script : SourceFile}
    (h : env.mayEmbed script.contents = false) : weave env script none = .ok none := by
  rw [weave, weaveWith_eq_none h]

end Module

namespace Check

open TypedTemplate.Module

theorem scriptModule_eq_ofScriptPath (env : Environment) (files : Files) (path : String) :
    scriptModule env files path = ofScriptPath env files path := by
  unfold scriptModule ofScriptPath
  cases readSource files path with
  | error e => rfl
  | ok script =>
    show (if _ then _ else _) = _
    split
    · rename_i hleft
      simp only [Bool.and_eq_true, Bool.not_eq_true', Option.isNone_iff_eq_none] at hleft
      rw [hleft.1]
      exact (weave_eq_none hleft.2).symm
    · rfl

/-- Leaving a script alone for its text changes nothing: a path that does not end as a template gives the
module, the absence of one or the error that weaving what belongs to the path gives. A text that cannot
hold a template, be it a script or not, is woven without an error to no module, however scripts are read. -/
theorem scriptModule_eq_ofPath (env : Environment) (files : Files) (path : String)
    (hpath : ∀ rules ∈ env.companion, ∀ stem, path ≠ stem ++ rules.templateExtension) :
    scriptModule env files path = ofPath env files path ∧
      ∀ script : SourceFile, env.mayEmbed script.contents = false → weave env script none = .ok none ∧
        ∀ reader, weaveWith reader env script none = .ok none := by
  refine ⟨?_, fun script hscript => ⟨weave_eq_none hscript, weaveWith_eq_none hscript⟩⟩
  rw [scriptModule_eq_ofScriptPath]
  unfold ofPath
  split
  · rename_i rules hrules
    have hnone : Companion.dropSuffix? path rules.templateExtension = none := by
      rw [Option.eq_none_iff_forall_ne_some]
      intro stem hstem
      exact hpath rules hrules stem (Companion.dropSuffix?_eq_some hstem)
    rw [hnone]
    rfl
  · rfl

/-- A text that is no script and that nearly opens a template. -/
theorem scriptModule_eq_ofPath_broken :
    let script : SourceFile := ⟨"a/b.ts", "let = (`<templat` + /a/"⟩
    let files : Files := .ofList [(script.path, script.contents)]
    (∀ rules ∈ Environment.ember.companion, ∀ stem, script.path ≠ stem ++ rules.templateExtension) ∧
      Script.Outline.ofText? script.contents = none ∧
      Environment.ember.mayEmbed script.contents = false ∧
      scriptModule .ember files script.path = ofPath .ember files script.path ∧
      weave .ember script none = .ok none := by
  intro script files
  have hpath : ∀ rules ∈ Environment.ember.companion, ∀ stem, script.path ≠ stem ++ rules.templateExtension := by
    rintro _ ⟨⟩ stem h
    have hsuffix : ".hbs".toList <:+ "a/b.ts".toList :=
      ⟨stem.toList, by rw [← String.toList_append]; exact congrArg String.toList h.symm⟩
    exact absurd hsuffix (by decide)
  have hembed : Environment.ember.mayEmbed script.contents = false := by decide +kernel
  have hmodule := scriptModule_eq_ofPath .ember files script.path hpath
  exact ⟨hpath, by decide +kernel, hembed, hmodule.1, (hmodule.2 script hembed).1⟩

end Check

end TypedTemplate

/-
Scripts and templates that lead to each other. The script of a template stands beside it, in the place of
a pod, or in the tree of scripts. From a script beside it the search for a template leads back. In the
other layouts it leads back unless a template is preferred that the template itself does not defer to:
one beside the script of a pod, or that of a pod before one of the tree apart.
-/
import TypedTemplate.Proofs.Path
import TypedTemplate.Proofs.Text.Slice
import TypedTemplate.Files
import TypedTemplate.Companion

namespace TypedTemplate.Companion

open Text

variable {path dir before : String} {front : List Char}

/-! ## Directories in a path -/

/-- A directory in a path is a stretch between separators, if one is thought before the path. -/
theorem splitAround?_eq_some_iff {rest : String} :
    splitAround? path dir = some (before, rest) ↔ ∃ front, '/' :: before.toList = front ++ ['/'] ∧
      splitAtFirst ('/' :: dir.toList) ('/' :: path.toList) = some (front, rest.toList) := by
  have hhead : ('/' :: dir.toList).isPrefixOf ('/' :: path.toList) = dir.toList.isPrefixOf path.toList := by
    simp
  unfold splitAround?
  rw [splitAtFirst, hhead, stripStart?]
  by_cases hstart : dir.toList.isPrefixOf path.toList = true
  · simp only [hstart, if_true, List.length_cons, List.drop_succ_cons, Option.some.injEq, Prod.mk.injEq]
    constructor
    · rintro ⟨rfl, rfl⟩
      exact ⟨[], rfl, rfl, by rw [String.toList_ofList]⟩
    · rintro ⟨_, hbefore, rfl, hrest⟩
      refine ⟨String.toList_inj.1 ?_, String.toList_inj.1 ?_⟩
      · exact (List.cons.inj hbefore).2.symm
      · rw [String.toList_ofList, hrest]
  · simp only [hstart, Bool.false_eq_true, if_false, Option.map_eq_some_iff, Prod.mk.injEq, Prod.exists]
    constructor
    · rintro ⟨before, rest, hsplit, rfl, rfl⟩
      exact ⟨'/' :: before, by simp, before, rest, hsplit, rfl, by rw [String.toList_ofList]⟩
    · rintro ⟨_, hbefore, before, rest, hsplit, rfl, hrest⟩
      refine ⟨before, rest, hsplit, String.toList_inj.1 ?_, String.toList_inj.1 ?_⟩
      · rw [String.toList_ofList]
        exact (List.cons.inj hbefore).2.symm
      · rw [String.toList_ofList, hrest]

/-- What precedes a directory, with the separator that is thought before the path, ends in one. -/
theorem exists_before {path dir rest : List Char} (h : splitAtFirst ('/' :: dir) ('/' :: path) = some (front, rest)) :
    ∃ before : String, '/' :: before.toList = front ++ ['/'] := by
  have hpath := splitAtFirst_eq_some h
  cases front with
  | nil => exact ⟨"", rfl⟩
  | cons c front =>
    refine ⟨String.ofList (front ++ ['/']), ?_⟩
    rw [String.toList_ofList, (List.cons.inj hpath).1, List.cons_append]

theorem splitAround?_eq_none_iff : splitAround? path dir = none ↔ ¬ '/' :: dir.toList <:+: '/' :: path.toList := by
  constructor
  · intro hnone hoccurs
    obtain ⟨⟨front, rest⟩, hsplit⟩ := Option.isSome_iff_exists.1 (occursIn_iff.2 hoccurs)
    obtain ⟨before, hbefore⟩ := exists_before hsplit
    have hsome : splitAround? path dir = some (before, String.ofList rest) :=
      splitAround?_eq_some_iff.2 ⟨front, hbefore, by rw [String.toList_ofList, hsplit]⟩
    rw [hnone] at hsome
    cases hsome
  · intro hnot
    rw [Option.eq_none_iff_forall_ne_some]
    rintro ⟨before, rest⟩ hsome
    obtain ⟨front, -, hsplit⟩ := splitAround?_eq_some_iff.1 hsome
    exact hnot (occursIn_iff.1 (Option.isSome_iff_exists.2 ⟨_, hsplit⟩))

theorem not_prefix_of_borderless {tail : List Char} (rest : List Char)
    (hborder : ∀ n < ('/' :: tail).length - 1, 0 < n → ¬ ('/' :: tail).drop n <+: '/' :: tail) (hfront : front ≠ [])
    (h : ¬ '/' :: tail <+: front ++ ['/']) : ¬ '/' :: tail <+: front ++ ('/' :: tail ++ rest) := by
  intro hbegins
  by_cases hlength : ('/' :: tail).length ≤ front.length + 1
  · -- all of the first place lies before the second one, with which it can share the separator
    apply h
    refine List.prefix_of_prefix_length_le hbegins ⟨tail ++ rest, by simp⟩ ?_
    simpa using hlength
  · have hhead : front <+: '/' :: tail :=
      List.prefix_of_prefix_length_le (List.prefix_append _ _) hbegins (by omega)
    obtain ⟨back, hback⟩ := hhead
    rw [← hback, List.prefix_append_right_inj] at hbegins
    have hdrop : ('/' :: tail).drop front.length = back := by rw [← hback, List.drop_left]
    refine hborder front.length (by omega) (List.length_pos_of_ne_nil hfront) ?_
    rw [hdrop]
    refine List.prefix_of_prefix_length_le hbegins ?_ ?_
    · rw [hback]
      exact List.prefix_append _ _
    · rw [← hdrop, List.length_drop]
      omega

/-- Where a word does not occur before, it is found where it stands, if two places of it can share no
more than a separator. -/
theorem splitAtFirst_borderless {word rest : List Char} (hhead : ['/'] <+: word)
    (hborder : ∀ n < word.length - 1, 0 < n → ¬ word.drop n <+: word) (h : ¬ word <:+: front ++ ['/']) :
    splitAtFirst word (front ++ (word ++ rest)) = some (front, rest) := by
  obtain ⟨tail, rfl⟩ := hhead
  induction front with
  | nil =>
    have hbegins : (['/'] ++ tail).isPrefixOf ('/' :: (tail ++ rest)) = true :=
      List.isPrefixOf_iff_prefix.2 ⟨rest, rfl⟩
    show splitAtFirst (['/'] ++ tail) ('/' :: (tail ++ rest)) = _
    rw [splitAtFirst, if_pos hbegins]
    simp
  | cons c front ih =>
    have hnot := not_prefix_of_borderless rest hborder (List.cons_ne_nil c front)
      fun hbegins => h hbegins.isInfix
    have hrest : ¬ ['/'] ++ tail <:+: front ++ ['/'] := fun hoccurs =>
      h (hoccurs.trans (List.suffix_cons c _).isInfix)
    show splitAtFirst (['/'] ++ tail) (c :: (front ++ (['/'] ++ tail ++ rest))) = _
    rw [splitAtFirst, if_neg, ih hrest]
    · rfl
    · rw [List.isPrefixOf_iff_prefix]
      exact hnot

theorem splitAtFirst_append {word cs rest : List Char} (h : splitAtFirst word cs = some (front, rest))
    (more : List Char) : splitAtFirst word (cs ++ more) = some (front, rest ++ more) := by
  induction cs generalizing front with
  | nil =>
    rw [splitAtFirst] at h
    split at h
    · rename_i hword
      cases h
      rw [hword]
      cases more <;> rfl
    · cases h
  | cons c cs ih =>
    rw [splitAtFirst] at h
    split at h
    · rename_i hbegins
      cases h
      rw [List.isPrefixOf_iff_prefix] at hbegins
      rw [List.cons_append, splitAtFirst, if_pos, ← List.cons_append, List.drop_append_of_le_length hbegins.length_le]
      exact List.isPrefixOf_iff_prefix.2 (hbegins.trans (List.prefix_append _ _))
    · rename_i hnot
      obtain ⟨⟨front, rest⟩, hsplit, heq⟩ := Option.map_eq_some_iff.1 h
      cases heq
      rw [List.cons_append, splitAtFirst, if_neg, ih hsplit]
      · rfl
      · -- the word is not longer than what it occurs in
        have hlength : word.length ≤ (c :: cs).length := by
          rw [splitAtFirst_eq_some hsplit]
          simp
          omega
        rw [List.isPrefixOf_iff_prefix] at hnot ⊢
        intro hbegins
        exact hnot (List.prefix_of_prefix_length_le hbegins (List.prefix_append (c :: cs) more) hlength)

/-! ## The usual rules -/

def scriptEndings : List String := [".ts", ".gts", ".js", ".gjs"]

structure Usual (rules : CompanionRules) : Prop where
  template : rules.templateExtension = ".hbs"
  script : rules.scriptExtensions = scriptEndings
  pod : rules.podLayout = true
  classic : rules.classicTemplatesDir = none ∨ rules.classicTemplatesDir = some "app/templates"

theorem dropSuffix?_eq_some {text suffix stem : String} (h : dropSuffix? text suffix = some stem) :
    text = stem ++ suffix := by
  obtain ⟨front, hfront, rfl⟩ := Option.map_eq_some_iff.1 h
  apply String.toList_inj.1
  rw [Text.stripEnd?_eq_some hfront, String.toList_append, String.toList_ofList]

variable {rules : CompanionRules} {present : String → Bool} {stem ext other : String}

theorem dropSuffix?_append (stem suffix : String) : dropSuffix? (stem ++ suffix) suffix = some stem := by
  unfold dropSuffix? stripEnd? stripStart?
  rw [String.toList_append, List.reverse_append, if_pos (List.isPrefixOf_iff_prefix.2 (List.prefix_append _ _)),
    List.drop_left, Option.map_some, Option.map_some, List.reverse_reverse, String.ofList_toList]

/-- Of two endings neither is an ending of the other. -/
def Apart (a b : String) : Prop := ¬ a.toList <:+ b.toList ∧ ¬ b.toList <:+ a.toList

theorem dropSuffix?_apart (h : Apart other ext) : dropSuffix? (stem ++ ext) other = none := by
  rw [Option.eq_none_iff_forall_ne_some]
  intro front hfront
  have hother : other.toList <:+ stem.toList ++ ext.toList :=
    ⟨front.toList, by rw [← String.toList_append, ← String.toList_append, dropSuffix?_eq_some hfront]⟩
  rcases List.suffix_or_suffix_of_suffix hother (List.suffix_append _ _) with hsuffix | hsuffix
  · exact h.1 hsuffix
  · exact h.2 hsuffix

theorem findSome?_dropSuffix {exts : List String} (hexts : exts.Pairwise Apart) (h : ext ∈ exts) :
    exts.findSome? (dropSuffix? (stem ++ ext)) = some stem := by
  induction exts with
  | nil => cases h
  | cons other exts ih =>
    rw [List.pairwise_cons] at hexts
    rw [List.findSome?_cons]
    rcases List.mem_cons.1 h with rfl | h
    · rw [dropSuffix?_append]
    · rw [dropSuffix?_apart (hexts.1 ext h)]
      exact ih hexts.2 h

/-- The template of a script that is a pod. -/
def podTemplate? (script : String) : Option String :=
  if Path.fileStem? script = some "component" then (Path.parent? script).map (Path.join · "template.hbs")
  else none

/-- The template of a script in a tree apart. -/
def classicTemplate? (rules : CompanionRules) (stem : String) : Option String := do
  let layout ← ClassicLayout.of? rules
  let around ← splitAround? stem layout.scripts
  some (around.1 ++ layout.templates ++ around.2 ++ ".hbs")

theorem pairwise_scriptEndings : scriptEndings.Pairwise Apart := by
  unfold scriptEndings Apart
  decide

theorem templates_eq (hrules : Usual rules) (hext : ext ∈ scriptEndings) :
    templates rules (stem ++ ext) =
      ⟨stem ++ ".hbs", []⟩ :: ((podTemplate? (stem ++ ext)).map (Candidate.mk · [])).toList ++
        ((classicTemplate? rules stem).map (Candidate.mk · [stem ++ ".hbs"])).toList := by
  unfold templates
  rw [hrules.script, findSome?_dropSuffix pairwise_scriptEndings hext, hrules.template, hrules.pod]
  show (⟨stem ++ ".hbs", []⟩ : Candidate) :: Option.toList _ ++ Option.toList _ = _
  congr 1
  · congr 2
    unfold podTemplate?
    by_cases hstem : Path.fileStem? (stem ++ ext) = some "component"
    · rw [if_pos hstem, hstem, Option.map_map]
      rfl
    · rw [if_neg hstem, if_neg (by simpa using hstem)]
      rfl
  · congr 1
    unfold classicTemplate?
    cases ClassicLayout.of? rules with
    | none => rfl
    | some layout =>
      show Option.bind (splitAround? stem layout.scripts) _ =
        (Option.bind (splitAround? stem layout.scripts) _).map _
      cases splitAround? stem layout.scripts <;> rfl

/-- The choice among a template beside the script and two others, of which the second defers to it. -/
theorem choose_eq (present : String → Bool) (beside : String) (pod classic : Option String) :
    choose present (⟨beside, []⟩ :: (pod.map (Candidate.mk · [])).toList ++
        (classic.map (Candidate.mk · [beside])).toList) =
      if present beside then some beside else (pod.filter present).or (classic.filter present) := by
  unfold choose
  by_cases hbeside : present beside = true
  · simp [hbeside]
  · have hclassic : (((classic.map (Candidate.mk · [beside])).toList).find? fun c =>
        present c.path && !c.deferTo.any present).map (·.path) = classic.filter present := by
      cases classic with
      | none => rfl
      | some classic => by_cases h : present classic = true <;> simp [Option.filter, h, hbeside]
    rw [if_neg hbeside, ← hclassic, List.cons_append, List.find?_cons_of_neg (by simp [hbeside])]
    cases pod with
    | none => rfl
    | some pod => by_cases h : present pod = true <;> simp [Option.filter, h]

theorem template?_eq (hrules : Usual rules) (hext : ext ∈ scriptEndings) :
    template? rules present (stem ++ ext) =
      if present (stem ++ ".hbs") then some (stem ++ ".hbs")
      else ((podTemplate? (stem ++ ext)).filter present).or ((classicTemplate? rules stem).filter present) := by
  rw [template?, templates_eq hrules hext, choose_eq]

/-! ## Layouts -/

/-- Texts of one path to a template lead to one file. -/
def RespectsPaths (present : String → Bool) : Prop :=
  ∀ p q : String, Path.same (p ++ ".hbs") (q ++ ".hbs") = true → present (p ++ ".hbs") = present (q ++ ".hbs")

/-- The search for the template of a script gives this one, or another text of its path. -/
def Finds (rules : CompanionRules) (present : String → Bool) (script template : String) : Prop :=
  ∃ found, template? rules present script = some found ∧ Path.same found template = true

/-- How a script and a template that leads to it stand to each other, with what it takes for the script
to lead back. -/
inductive Belongs (present : String → Bool) (script template : String) : Prop → Prop where
  /-- They differ in their extensions only. -/
  | beside (stem ext : String) (hext : ext ∈ scriptEndings) (hscript : script = stem ++ ext)
    (htemplate : template = stem ++ ".hbs") : Belongs present script template True
  /-- They share a directory; a template beside the script is preferred. -/
  | pod (dir ext : String) (hext : ext ∈ scriptEndings)
    (hname : Path.fileName? template = some "template.hbs") (hdir : Path.parent? template = some dir)
    (hscript : script = Path.join dir ("component" ++ ext)) :
    Belongs present script template (present (Path.join dir "component.hbs") = false)
  /-- They stand in trees apart, and there is no template beside the script. That of a pod is preferred,
  and the place of the template depends on where the tree of scripts first occurs. -/
  | classic (before rest ext : String) (hext : ext ∈ scriptEndings)
    (hscript : script = before ++ "app/components/" ++ rest ++ ext)
    (htemplate : template = before ++ "app/templates/components/" ++ rest ++ ".hbs")
    (hbeside : present (before ++ "app/components/" ++ rest ++ ".hbs") = false) :
    Belongs present script template
      ((∀ pod ∈ podTemplate? script, present pod = false) ∧ splitAround? before "app/components/" = none)

theorem same_of_components {p q : String} (h : Path.components p = Path.components q) : Path.same p q = true := by
  rw [Path.same, h, beq_self_eq_true]

theorem finds_beside (hrules : Usual rules) (hext : ext ∈ scriptEndings) (h : present (stem ++ ".hbs") = true) :
    Finds rules present (stem ++ ext) (stem ++ ".hbs") := by
  refine ⟨stem ++ ".hbs", ?_, same_of_components rfl⟩
  rw [template?_eq hrules hext, if_pos h]

theorem isPlain_component (hext : ext ∈ scriptEndings) : Path.isPlain ("component" ++ ext) = true := by
  simp only [scriptEndings, List.mem_cons, List.not_mem_nil, or_false] at hext
  rcases hext with rfl | rfl | rfl | rfl <;> decide

theorem fileStem?_component (hext : ext ∈ scriptEndings) (dir : String) :
    Path.fileStem? (Path.join dir ("component" ++ ext)) = some "component" := by
  rw [Path.fileStem?, Path.fileName?_of_components (Path.components_join dir (isPlain_component hext))]
  simp only [scriptEndings, List.mem_cons, List.not_mem_nil, or_false] at hext
  rcases hext with rfl | rfl | rfl | rfl <;> decide

theorem finds_pod_iff (hrules : Usual rules) (hsame : RespectsPaths present) (hext : ext ∈ scriptEndings)
    (hpresent : present (stem ++ ".hbs") = true)
    (htemplate : Path.components (stem ++ ".hbs") = Path.components dir ++ [.name "template.hbs"]) :
    Finds rules present (Path.join dir ("component" ++ ext)) (stem ++ ".hbs") ↔
      present (Path.join dir "component.hbs") = false := by
  have hscript := Path.components_join dir (isPlain_component hext)
  have hbeside : Path.join dir "component" ++ ".hbs" = Path.join dir "component.hbs" :=
    (Path.join_append dir "component" ".hbs" (by decide)).symm
  obtain ⟨dir', hdir', hparent⟩ := Path.exists_parent (Path.fileName?_of_components hscript)
  have hfound : Path.components (Path.join dir' "template.hbs") = Path.components (stem ++ ".hbs") := by
    rw [hscript] at hparent
    rw [Path.components_join dir' (by decide), htemplate, List.append_cancel_right hparent]
  have hpod : podTemplate? (Path.join dir ("component" ++ ext)) = some (Path.join dir' "template.hbs") := by
    rw [podTemplate?, if_pos (fileStem?_component hext dir), hdir', Option.map_some]
  rw [Path.join_append dir "component" ext (by decide)] at hpod ⊢
  unfold Finds
  rw [template?_eq hrules hext, hbeside, hpod]
  constructor
  · rintro ⟨found, hchosen, hpath⟩
    by_contra hpreferred
    rw [if_pos (by simpa using hpreferred)] at hchosen
    cases hchosen
    rw [Path.same, beq_iff_eq, Path.components_join dir (by decide), htemplate] at hpath
    exact absurd (List.append_cancel_left hpath) (by decide)
  · intro hfree
    have hthere : present (Path.join dir' "template.hbs") = true := by
      have htext : Path.join dir' "template.hbs" = Path.join dir' "template" ++ ".hbs" :=
        Path.join_append dir' "template" ".hbs" (by decide)
      rw [htext] at hfound ⊢
      rw [hsame _ _ (same_of_components hfound), hpresent]
    refine ⟨Path.join dir' "template.hbs", ?_, same_of_components hfound⟩
    simp [hfree, Option.filter, hthere]

/-! ## Trees apart -/

theorem ClassicLayout.of?_eq (h : rules.classicTemplatesDir = some "app/templates") :
    ClassicLayout.of? rules = some ⟨"app/components/", "app/templates/components/"⟩ := by
  rw [of?, h]
  rfl

theorem ClassicLayout.of?_eq_none (h : rules.classicTemplatesDir = none) : ClassicLayout.of? rules = none := by
  rw [of?, h]
  rfl

/-- The components of a path with a tree in it, of which the second directory is given. -/
theorem components_tree (before name rest : String) (hname : Path.isPlain name = true) :
    Path.components (before ++ "app/" ++ name ++ "/" ++ rest) =
      Path.components (before ++ "app") ++ .name name :: Path.names rest.toList := by
  have hne : before ++ "app" ≠ "" := by
    intro h
    exact absurd (congrArg String.length h) (by simp)
  have hpath : before ++ "app/" ++ name ++ "/" ++ rest = before ++ "app" ++ "/" ++ (name ++ "/" ++ rest) := by
    rw [show "app/" = "app" ++ "/" by decide]
    simp only [String.append_assoc]
  have hrest : (name ++ "/" ++ rest).toList = name.toList ++ '/' :: rest.toList := by
    simp
  rw [hpath, Path.components_append hne, hrest, Path.names_append, Path.names_plain hname]
  rfl

/-- Two trees in a path are not found where the first one is not the tree of scripts. -/
theorem splitAround?_scripts {rest : String} (hbefore : ∃ front, '/' :: before.toList = front ++ ['/'])
    (h : splitAround? before "app/components/" = none) :
    splitAround? (before ++ "app/components/" ++ rest) "app/components/" = some (before, rest) := by
  obtain ⟨front, hfront⟩ := hbefore
  rw [splitAround?_eq_none_iff, hfront] at h
  refine splitAround?_eq_some_iff.2 ⟨front, hfront, ?_⟩
  have hpath : '/' :: (before ++ "app/components/" ++ rest).toList =
      front ++ ('/' :: "app/components/".toList ++ rest.toList) := by
    rw [String.toList_append, String.toList_append, List.append_assoc, ← List.cons_append, hfront,
      List.append_assoc]
    rfl
  rw [hpath]
  exact splitAtFirst_borderless (List.prefix_append ['/'] _) (by decide) h

theorem splitAround?_append {rest : String} (h : splitAround? path dir = some (before, rest)) (more : String) :
    splitAround? (path ++ more) dir = some (before, rest ++ more) := by
  obtain ⟨front, hfront, hsplit⟩ := splitAround?_eq_some_iff.1 h
  refine splitAround?_eq_some_iff.2 ⟨front, hfront, ?_⟩
  rw [String.toList_append, String.toList_append]
  exact splitAtFirst_append hsplit more.toList

theorem eq_of_splitAround? {rest : String} (h : splitAround? path dir = some (before, rest)) :
    path = before ++ dir ++ rest := by
  obtain ⟨front, hfront, hsplit⟩ := splitAround?_eq_some_iff.1 h
  have hpath := splitAtFirst_eq_some hsplit
  apply String.toList_inj.1
  rw [List.cons_append, List.append_cons, ← hfront, List.cons_append] at hpath
  rw [(List.cons.inj hpath).2, String.toList_append, String.toList_append, List.append_assoc]

theorem isEnding_script (hext : ext ∈ scriptEndings) : Path.isEnding ext = true := by
  simp only [scriptEndings, List.mem_cons, List.not_mem_nil, or_false] at hext
  rcases hext with rfl | rfl | rfl | rfl <;> decide

theorem components_script (before rest ext : String) :
    Path.components (before ++ "app/components/" ++ rest ++ ext) =
      Path.components (before ++ "app") ++ .name "components" :: Path.names (rest ++ ext).toList := by
  rw [← components_tree before "components" (rest ++ ext) (by decide)]
  congr 1
  rw [show "app/components/" = "app/" ++ "components" ++ "/" by decide]
  simp only [String.append_assoc]

theorem components_template (before rest ext : String) :
    Path.components (before ++ "app/templates/components/" ++ rest ++ ext) =
      Path.components (before ++ "app") ++
        .name "templates" :: .name "components" :: Path.names (rest ++ ext).toList := by
  have hrest : ("components/" ++ rest ++ ext).toList = "components".toList ++ '/' :: (rest ++ ext).toList := by
    simp
  have hplain : Path.names "components".toList = [.name "components"] := Path.names_plain (by decide)
  have hnames := components_tree before "templates" ("components/" ++ rest ++ ext) (by decide)
  rw [hrest, Path.names_append, hplain, List.singleton_append] at hnames
  rw [← hnames]
  congr 1
  rw [show "app/templates/components/" = "app/" ++ "templates" ++ "/" ++ "components/" by decide]
  simp only [String.append_assoc]

/-- The template of a pod stands as deep as its script, one in a tree apart stands deeper. -/
theorem not_same_pod {rest pod : String} (hext : ext ∈ scriptEndings)
    (hpod : podTemplate? (before ++ "app/components/" ++ rest ++ ext) = some pod) :
    ¬ Path.same pod (before ++ "app/templates/components/" ++ rest ++ ".hbs") = true := by
  intro hsame
  rw [Path.same, beq_iff_eq] at hsame
  obtain ⟨outer, front, -, hending⟩ := Path.components_ending (before ++ "app/components/" ++ rest)
  have hscript := hending ext (isEnding_script hext)
  have hbeside := hending ".hbs" (by decide)
  obtain ⟨dir, hdir, hparent⟩ := Path.exists_parent (Path.fileName?_of_components hscript)
  have hjoin : pod = Path.join dir "template.hbs" := by
    unfold podTemplate? at hpod
    split at hpod
    · rw [hdir] at hpod
      cases hpod
      rfl
    · cases hpod
  rw [hjoin, Path.components_join dir (by decide), components_template] at hsame
  rw [hscript] at hparent
  rw [components_script] at hbeside
  have h₁ := congrArg List.length hsame
  have h₂ := congrArg List.length hparent
  have h₃ := congrArg List.length hbeside
  simp only [List.length_append, List.length_cons, List.length_nil] at h₁ h₂ h₃
  omega

theorem finds_classic_iff (hrules : Usual rules) (hclassic : rules.classicTemplatesDir = some "app/templates")
    {rest : String} (hext : ext ∈ scriptEndings) (hbefore : ∃ front, '/' :: before.toList = front ++ ['/'])
    (hpresent : present (before ++ "app/templates/components/" ++ rest ++ ".hbs") = true)
    (hbeside : present (before ++ "app/components/" ++ rest ++ ".hbs") = false) :
    Finds rules present (before ++ "app/components/" ++ rest ++ ext)
        (before ++ "app/templates/components/" ++ rest ++ ".hbs") ↔
      (∀ pod ∈ podTemplate? (before ++ "app/components/" ++ rest ++ ext), present pod = false) ∧
        splitAround? before "app/components/" = none := by
  have hplace : classicTemplate? rules (before ++ "app/components/" ++ rest) =
      (splitAround? (before ++ "app/components/" ++ rest) "app/components/").bind fun around =>
        some (around.1 ++ "app/templates/components/" ++ around.2 ++ ".hbs") := by
    rw [classicTemplate?, ClassicLayout.of?_eq hclassic]
    rfl
  have hnone (hfree : ∀ pod ∈ podTemplate? (before ++ "app/components/" ++ rest ++ ext), present pod = false) :
      (podTemplate? (before ++ "app/components/" ++ rest ++ ext)).filter present = none := by
    rw [Option.filter_eq_none_iff]
    intro pod hpod
    rw [hfree pod hpod]
    decide
  unfold Finds
  rw [template?_eq hrules hext, hbeside, if_neg Bool.false_ne_true, hplace]
  constructor
  · rintro ⟨found, hchosen, hsame⟩
    have hfree : ∀ pod ∈ podTemplate? (before ++ "app/components/" ++ rest ++ ext), present pod = false := by
      intro pod hpod
      by_contra hthere
      rw [Bool.not_eq_false] at hthere
      rw [hpod, Option.filter_some_pos hthere, Option.some_or, Option.some.injEq] at hchosen
      rw [← hchosen] at hsame
      exact not_same_pod hext hpod hsame
    refine ⟨hfree, ?_⟩
    rw [Option.eq_none_iff_forall_ne_some]
    rintro ⟨outer, inner⟩ houter
    -- the first tree is exchanged, and not the one that the template stands in
    have hpath : before ++ "app/components/" ++ rest = before ++ ("app/components/" ++ rest) :=
      String.append_assoc ..
    rw [hnone hfree, Option.none_or, hpath, splitAround?_append houter, Option.bind_some,
      Option.filter_eq_some_iff, Option.some.injEq] at hchosen
    have hbefore := eq_of_splitAround? houter
    have htemplate : before ++ "app/templates/components/" ++ rest ++ ".hbs" =
        outer ++ "app/components/" ++ (inner ++ "app/templates/components/" ++ rest) ++ ".hbs" := by
      rw [hbefore]
      simp only [String.append_assoc]
    rw [← hchosen.1, htemplate, Path.same, beq_iff_eq, components_script, components_template] at hsame
    exact absurd (List.cons.inj (List.append_cancel_left hsame)).1 (by decide)
  · rintro ⟨hfree, hfirst⟩
    refine ⟨_, ?_, same_of_components rfl⟩
    rw [splitAround?_scripts hbefore hfirst, hnone hfree, Option.none_or, Option.bind_some,
      Option.filter_some_pos hpresent]

/-! ## Scripts and templates -/

/-- What a candidate for the script of a template is. -/
theorem mem_scripts (hrules : Usual rules) {template : String} {c : Candidate}
    (h : c ∈ scripts rules template) :
    ∃ stem, template = stem ++ ".hbs" ∧ ∃ ext ∈ scriptEndings,
      c = ⟨stem ++ ext, []⟩ ∨
      (Path.fileStem? template = some "template" ∧ ∃ dir, Path.parent? template = some dir ∧
        c = ⟨Path.join dir ("component" ++ ext), []⟩) ∨
      (rules.classicTemplatesDir = some "app/templates" ∧ ∃ before rest,
        splitAround? stem "app/templates/components/" = some (before, rest) ∧
        c = ⟨before ++ "app/components/" ++ rest ++ ext, [before ++ "app/components/" ++ rest ++ ".hbs"]⟩) := by
  unfold scripts at h
  split at h
  · cases h
  · rename_i stem hstem
    rw [hrules.template] at hstem h
    rw [hrules.script, hrules.pod] at h
    refine ⟨stem, dropSuffix?_eq_some hstem, ?_⟩
    simp only [List.mem_append, or_assoc] at h
    rcases h with h | h | h
    · obtain ⟨ext, hext, rfl⟩ := List.mem_map.1 h
      exact ⟨ext, hext, .inl rfl⟩
    · split at h
      · rename_i hname
        split at h
        · rename_i dir hdir
          obtain ⟨ext, hext, rfl⟩ := List.mem_map.1 h
          exact ⟨ext, hext, .inr (.inl ⟨by simpa using hname, dir, hdir, rfl⟩)⟩
        · cases h
      · cases h
    · rcases hrules.classic with hclassic | hclassic
      · rw [ClassicLayout.of?_eq_none hclassic] at h
        cases h
      · rw [ClassicLayout.of?_eq hclassic] at h
        simp only at h
        split at h
        · cases h
        · rename_i before rest hsplit
          obtain ⟨ext, hext, rfl⟩ := List.mem_map.1 h
          exact ⟨ext, hext, .inr (.inr ⟨hclassic, before, rest, hsplit, rfl⟩)⟩

theorem fileName?_template (h : Path.fileStem? (stem ++ ".hbs") = some "template") :
    Path.fileName? (stem ++ ".hbs") = some "template.hbs" := by
  obtain ⟨outer, front, -, hending⟩ := Path.components_ending stem
  have hname := Path.fileName?_of_components (hending ".hbs" (by decide))
  rw [Path.fileStem?, hname, Option.map_some, Option.some.injEq] at h
  by_cases hfront : front = ""
  · rw [hfront] at h
    exact absurd h (by decide)
  · have hsplit : (Path.splitName (front ++ ".hbs")).1 = front :=
      Path.splitName_append hfront "hbs" (by decide)
    rw [hsplit] at h
    rw [hname, h]
    rfl

theorem respectsPaths_ofList (entries : List (String × String)) :
    RespectsPaths (Files.ofList entries).present := by
  intro p q h
  have hcomponents : Path.components (p ++ ".hbs") = Path.components (q ++ ".hbs") := by
    rwa [Path.same, beq_iff_eq] at h
  show entries.any _ = entries.any _
  simp only [Path.same, hcomponents]

/-- The rules of the default environment. -/
def emberRules : CompanionRules :=
  { dialect := Environment.emberLoose, classicTemplatesDir := some "app/templates" }

theorem usual_emberRules : Usual emberRules := ⟨rfl, rfl, rfl, .inr rfl⟩

/-- A template leads to a script that belongs to it, and the script leads back exactly if nothing that
is preferred stands in the way. -/
theorem leads_back_iff (hrules : Usual rules) (hsame : RespectsPaths present)
    {script template : String} (hpresent : present template = true)
    (h : script? rules present template = some script) :
    ∃ condition, Belongs present script template condition ∧
      (Finds rules present script template ↔ condition) := by
  obtain ⟨c, hc, rfl⟩ := Option.map_eq_some_iff.1 h
  have hmem := List.mem_of_find?_eq_some hc
  have hchosen := List.find?_some hc
  obtain ⟨stem, rfl, ext, hext, rfl | ⟨hname, dir, hdir, rfl⟩ | ⟨hclassic, before, rest, hsplit, rfl⟩⟩ :=
    mem_scripts hrules hmem
  · exact ⟨True, .beside stem ext hext rfl rfl, iff_true_intro (finds_beside hrules hext hpresent)⟩
  · have hfile := fileName?_template hname
    obtain ⟨dir', hdir', hparent⟩ := Path.exists_parent hfile
    obtain rfl : dir' = dir := Option.some.inj (hdir'.symm.trans hdir)
    exact ⟨_, .pod dir' ext hext hfile hdir rfl, finds_pod_iff hrules hsame hext hpresent hparent⟩
  · have hbefore : ∃ front, '/' :: before.toList = front ++ ['/'] := by
      obtain ⟨front, hfront, -⟩ := splitAround?_eq_some_iff.1 hsplit
      exact ⟨front, hfront⟩
    obtain rfl := eq_of_splitAround? hsplit
    have hbeside : present (before ++ "app/components/" ++ rest ++ ".hbs") = false := by
      simp only [List.any_cons, List.any_nil, Bool.or_false, Bool.and_eq_true, Bool.not_eq_true'] at hchosen
      exact hchosen.2
    exact ⟨_, .classic before rest ext hext rfl rfl hbeside,
      finds_classic_iff hrules hclassic hext hbefore hpresent hbeside⟩

/-- A pod, by another text of its path. -/
theorem leads_back_pod :
    let present := (Files.ofList [("a/template.hbs", ""), ("a/component.gts", "")]).present
    Usual emberRules ∧ RespectsPaths present ∧ present "a//./template.hbs" = true ∧
      script? emberRules present "a//./template.hbs" = some "a/component.gts" ∧
      Finds emberRules present "a/component.gts" "a//./template.hbs" ∧
      ∃ condition, Belongs present "a/component.gts" "a//./template.hbs" condition ∧
        (Finds emberRules present "a/component.gts" "a//./template.hbs" ↔ condition) := by
  intro present
  have hpresent : present "a//./template.hbs" = true := by decide +kernel
  have hscript : script? emberRules present "a//./template.hbs" = some "a/component.gts" := by decide +kernel
  exact ⟨usual_emberRules, respectsPaths_ofList _, hpresent, hscript,
    ⟨"a/template.hbs", by decide +kernel, by decide +kernel⟩,
    leads_back_iff usual_emberRules (respectsPaths_ofList _) hpresent hscript⟩

/-- A template of a pod with one beside its script: it leads to the script, and the script to the other
template, so that no module is woven of it where the script is checked. -/
theorem pod_preferred :
    let files := Files.ofList [("app/foo/component.ts", ""), ("app/foo/component.hbs", ""), ("app/foo/template.hbs", "")]
    files.present "app/foo/template.hbs" = true ∧
      script? emberRules files.present "app/foo/template.hbs" = some "app/foo/component.ts" ∧
      template? emberRules files.present "app/foo/component.ts" = some "app/foo/component.hbs" ∧
      ¬ Finds emberRules files.present "app/foo/component.ts" "app/foo/template.hbs" := by
  intro files
  have htemplate : template? emberRules files.present "app/foo/component.ts" = some "app/foo/component.hbs" := by
    decide +kernel
  refine ⟨by decide +kernel, by decide +kernel, htemplate, ?_⟩
  rintro ⟨found, hfound, hsame⟩
  rw [htemplate] at hfound
  cases hfound
  exact absurd hsame (by decide +kernel)

end TypedTemplate.Companion

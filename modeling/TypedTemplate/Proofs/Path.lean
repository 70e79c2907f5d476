/-
The components of paths. What a separator divides is read on its own (`names_append`), so the components
of a path under a directory are those of the directory with those of the path after them: joining a file
name to a directory adds one component, and the parent of a path lacks its last one.
-/
import TypedTemplate.Path

namespace TypedTemplate.Path

variable {cs segment : List Char} {path name : String} {rest : List (List Char)}

/-! ## Segments -/

/-- The components of what has no root. -/
def names (cs : List Char) : List Component := ((cs.splitOn '/').filter (!isIdle ·)).map componentOf

theorem names_append (xs ys : List Char) : names (xs ++ '/' :: ys) = names xs ++ names ys := by
  rw [names, List.splitOn_append_cons_self, List.filter_append, List.map_append]
  rfl

theorem names_segment (hcs : '/' ∉ cs) (hidle : isIdle cs = false) : names cs = [componentOf cs] := by
  rw [names, List.splitOn_eq_singleton hcs, List.filter_cons_of_pos (by rw [hidle]; rfl)]
  rfl

theorem not_mem_of_mem_splitOn (h : segment ∈ cs.splitOn '/') : '/' ∉ segment := by
  induction cs generalizing segment with
  | nil =>
    rw [List.splitOn_nil, List.mem_singleton] at h
    rw [h]
    exact List.not_mem_nil
  | cons c cs ih =>
    rw [List.splitOn_cons_eq_if_modifyHead] at h
    split at h
    · rcases List.mem_cons.1 h with rfl | h
      · exact List.not_mem_nil
      · exact ih h
    · rename_i hc
      obtain ⟨first, others, hsplit⟩ := List.exists_cons_of_ne_nil (List.splitOn_ne_nil '/' cs)
      rw [hsplit, List.modifyHead_cons] at h
      rcases List.mem_cons.1 h with rfl | h
      · have hfirst := ih (hsplit ▸ List.mem_cons_self)
        simp only [List.mem_cons, not_or]
        exact ⟨fun heq => hc (heq ▸ beq_self_eq_true '/'), hfirst⟩
      · exact ih (hsplit ▸ List.mem_cons_of_mem _ h)

theorem joinSegments_cons {others : List (List Char)} (h : others ≠ []) :
    joinSegments (segment :: others) = segment ++ '/' :: joinSegments others := by
  cases others with
  | nil => exact absurd rfl h
  | cons => rfl

theorem names_joinSegments {segments : List (List Char)} (h : ∀ s ∈ segments, '/' ∉ s) :
    names (joinSegments segments) = (segments.filter (!isIdle ·)).map componentOf := by
  induction segments with
  | nil => decide
  | cons segment others ih =>
    have hsegment : names segment = ([segment].filter (!isIdle ·)).map componentOf := by
      rw [names, List.splitOn_eq_singleton (h segment List.mem_cons_self)]
    by_cases hothers : others = []
    · rw [hothers]
      exact hsegment
    · rw [joinSegments_cons hothers, names_append, hsegment,
        ih fun s hs => h s (List.mem_cons_of_mem _ hs), ← List.map_append, ← List.filter_append,
        List.singleton_append]

/-! ## Leads -/

/-- A text that starts with neither a root nor a `.`. -/
def Relative (cs : List Char) : Prop := cs.head? ≠ some '/' ∧ cs ≠ ['.'] ∧ ¬ ['.', '/'] <+: cs

theorem segments_relative (h : Relative path.toList) : segments path = ("", path.toList.splitOn '/') := by
  obtain ⟨hroot, hdot, hhere⟩ := h
  unfold segments
  split
  · rename_i hcs
    exact absurd (by rw [hcs]; rfl) hroot
  · rename_i hcs
    exact absurd hcs hdot
  · rename_i rest hcs
    exact absurd ⟨rest, hcs.symm⟩ hhere
  · rfl

theorem components_relative (h : Relative path.toList) : components path = names path.toList := by
  unfold components
  rw [segments_relative h]
  rfl

theorem segments_root (path : String) : segments ("/" ++ path) = ("/", path.toList.splitOn '/') := by
  rw [segments, String.toList_append]
  rfl

theorem components_root (path : String) : components ("/" ++ path) = .root :: names path.toList := by
  unfold components
  rw [segments_root]
  rfl

theorem segments_here (path : String) :
    segments ("./" ++ path) = (".", ('/' :: path.toList).splitOn '/') := by
  rw [segments, String.toList_append, List.splitOn_cons_eq_if_modifyHead]
  rfl

theorem components_here (path : String) : components ("./" ++ path) = .here :: names path.toList := by
  unfold components
  rw [segments_here]
  show .here :: names ([] ++ '/' :: path.toList) = _
  rw [names_append]
  rfl

/-- How a path starts. -/
theorem lead_cases (path : String) :
    (∃ rest, path = "/" ++ rest) ∨ path = "." ∨ (∃ rest, path = "./" ++ rest) ∨ Relative path.toList := by
  by_cases hroot : path.toList.head? = some '/'
  · obtain ⟨rest, hrest⟩ := List.head?_eq_some_iff.1 hroot
    refine .inl ⟨String.ofList rest, String.toList_inj.1 ?_⟩
    rw [hrest, String.toList_append, String.toList_ofList, String.toList_ofList, List.singleton_append]
  · by_cases hdot : path.toList = ['.']
    · exact .inr (.inl (String.toList_inj.1 hdot))
    · by_cases hhere : ['.', '/'] <+: path.toList
      · obtain ⟨rest, hrest⟩ := hhere
        refine .inr (.inr (.inl ⟨String.ofList rest, String.toList_inj.1 ?_⟩))
        rw [← hrest, String.toList_append, String.toList_ofList, String.toList_ofList]
      · exact .inr (.inr (.inr ⟨hroot, hdot, hhere⟩))

theorem Relative.append (h : Relative cs) (hne : cs ≠ []) (more : List Char) : Relative (cs ++ '/' :: more) := by
  obtain ⟨hroot, hdot, hhere⟩ := h
  cases cs with
  | nil => exact absurd rfl hne
  | cons c cs =>
    refine ⟨hroot, ?_, ?_⟩
    · simp
    · intro hbegins
      cases cs with
      | nil =>
        simp only [List.cons_append, List.cons_prefix_cons] at hbegins
        exact hdot (by rw [← hbegins.1])
      | cons d cs =>
        simp only [List.cons_append, List.cons_prefix_cons] at hbegins
        exact hhere (by rw [← hbegins.1, ← hbegins.2.1]; exact List.prefix_append _ cs)

/-- The components under a directory. -/
theorem components_append {dir : String} (hdir : dir ≠ "") (path : String) :
    components (dir ++ "/" ++ path) = components dir ++ names path.toList := by
  have hslash : ("/" ++ path).toList = '/' :: path.toList := by
    rw [String.toList_append]
    rfl
  rw [String.append_assoc]
  rcases lead_cases dir with ⟨rest, rfl⟩ | rfl | ⟨rest, rfl⟩ | hrelative
  · rw [String.append_assoc, components_root, components_root, String.toList_append, hslash, names_append]
    rfl
  · rw [← String.append_assoc]
    exact components_here path
  · rw [String.append_assoc, components_here, components_here, String.toList_append, hslash, names_append]
    rfl
  · have hne : dir.toList ≠ [] := fun h => hdir (String.toList_inj.1 h)
    have hmore : Relative (dir ++ ("/" ++ path)).toList := by
      rw [String.toList_append, hslash]
      exact hrelative.append hne _
    rw [components_relative hmore, components_relative hrelative, String.toList_append, hslash, names_append]

/-! ## Names of files -/

/-- The name of a file or a directory, as one segment. -/
def isPlain (name : String) : Bool :=
  !name.toList.contains '/' && !isIdle name.toList && name.toList != ['.', '.']

theorem names_plain (h : isPlain name = true) : names name.toList = [.name name] := by
  simp only [isPlain, Bool.and_eq_true, Bool.not_eq_true', bne_iff_ne, List.contains_eq_mem,
    decide_eq_false_iff_not] at h
  obtain ⟨⟨hslash, hidle⟩, hup⟩ := h
  rw [names_segment hslash hidle, componentOf, if_neg hup, String.ofList_toList]

theorem relative_of_not_mem (hslash : '/' ∉ cs) (hidle : isIdle cs = false) : Relative cs := by
  refine ⟨?_, ?_, ?_⟩
  · intro hhead
    exact hslash (List.mem_of_head? hhead)
  · rintro rfl
    exact absurd hidle (by decide)
  · intro hbegins
    exact hslash (hbegins.subset (by simp))

theorem components_plain (h : isPlain name = true) : components name = [.name name] := by
  rw [components_relative, names_plain h]
  simp only [isPlain, Bool.and_eq_true, Bool.not_eq_true', bne_iff_ne, List.contains_eq_mem,
    decide_eq_false_iff_not] at h
  exact relative_of_not_mem h.1.1 h.1.2

theorem isAbsolute_plain (h : isPlain name = true) : isAbsolute name = false := by
  simp only [isPlain, Bool.and_eq_true, Bool.not_eq_true', List.contains_eq_mem, decide_eq_false_iff_not] at h
  rw [isAbsolute, beq_eq_false_iff_ne]
  intro hhead
  exact h.1.1 (List.mem_of_head? hhead)

/-- A file in a directory has one component more. -/
theorem components_join (base : String) (h : isPlain name = true) :
    components (join base name) = components base ++ [.name name] := by
  unfold join
  rw [isAbsolute_plain h, if_neg Bool.false_ne_true]
  split
  · rename_i hbase
    obtain rfl : base = "" := String.toList_inj.1 (List.getLast?_eq_none_iff.1 hbase)
    rw [String.empty_append, components_plain h]
    rfl
  · rename_i hbase
    obtain ⟨front, hfront⟩ := List.getLast?_eq_some_iff.1 hbase
    obtain rfl : base = String.ofList front ++ "/" := by
      apply String.toList_inj.1
      rw [hfront, String.toList_append, String.toList_ofList]
      rfl
    by_cases hdir : String.ofList front = ""
    · rw [hdir]
      show components ("/" ++ name) = components ("/" ++ "") ++ _
      rw [components_root, components_root, names_plain h]
      rfl
    · have hempty := components_append hdir ""
      rw [String.append_empty] at hempty
      have hnil : names "".toList = [] := by decide
      rw [components_append hdir, hempty, names_plain h, hnil, List.append_nil]
  · rename_i c hc hbase
    have hne : base ≠ "" := by
      rintro rfl
      cases hbase
    rw [components_append hne, names_plain h]

theorem join_append (base path suffix : String) (h : path ≠ "") :
    join base (path ++ suffix) = join base path ++ suffix := by
  have habsolute : isAbsolute (path ++ suffix) = isAbsolute path := by
    obtain ⟨c, cs, hcs⟩ := List.exists_cons_of_ne_nil fun hnil => h (String.toList_inj.1 hnil)
    rw [isAbsolute, isAbsolute, String.toList_append, hcs]
    rfl
  unfold join
  rw [habsolute]
  split
  · rfl
  · split <;> simp only [String.append_assoc]

/-- What can end the name of a file without making it another kind of segment. -/
def isEnding (ending : String) : Bool := !ending.toList.contains '/' && 3 ≤ ending.toList.length

theorem isPlain_append {front ending : String} (hfront : '/' ∉ front.toList) (h : isEnding ending = true) :
    isPlain (front ++ ending) = true := by
  simp only [isEnding, Bool.and_eq_true, Bool.not_eq_true', List.contains_eq_mem, decide_eq_false_iff_not,
    decide_eq_true_eq] at h
  have hlength : 3 ≤ (front ++ ending).toList.length := by
    rw [String.toList_append, List.length_append]
    omega
  have hslash : '/' ∉ (front ++ ending).toList := by
    rw [String.toList_append, List.mem_append, not_or]
    exact ⟨hfront, h.1⟩
  have hother {cs : List Char} (hcs : cs.length < 3) : (front ++ ending).toList ≠ cs := by
    rintro rfl
    omega
  simp only [isPlain, isIdle, Bool.and_eq_true, Bool.not_eq_true', List.contains_eq_mem,
    decide_eq_false_iff_not, Bool.or_eq_false_iff, List.isEmpty_eq_false_iff, beq_eq_false_iff_ne, bne_iff_ne]
  exact ⟨⟨hslash, hother (by decide), hother (by decide)⟩, hother (by decide)⟩

theorem exists_last_separator (h : '/' ∈ path.toList) :
    ∃ dir front : String, path = dir ++ "/" ++ front ∧ '/' ∉ front.toList := by
  obtain ⟨front, dir, hpath, hfront⟩ := List.eq_append_cons_of_mem (List.mem_reverse.2 h)
  refine ⟨String.ofList dir.reverse, String.ofList front.reverse, String.toList_inj.1 ?_, ?_⟩
  · rw [← List.reverse_reverse path.toList, hpath]
    simp
  · simpa using hfront

/-- A path with an ending names a file, and only the name of the file depends on the ending. -/
theorem components_ending (path : String) :
    ∃ outer front, '/' ∉ front.toList ∧ ∀ ending, isEnding ending = true →
      components (path ++ ending) = outer ++ [.name (front ++ ending)] := by
  by_cases hslash : '/' ∈ path.toList
  · obtain ⟨dir, front, rfl, hfront⟩ := exists_last_separator hslash
    by_cases hdir : dir = ""
    · subst hdir
      refine ⟨[.root], front, hfront, ?_⟩
      intro ending hending
      rw [String.empty_append, String.append_assoc, components_root, names_plain (isPlain_append hfront hending)]
      rfl
    · refine ⟨components dir, front, hfront, ?_⟩
      intro ending hending
      rw [String.append_assoc, components_append hdir, names_plain (isPlain_append hfront hending)]
  · refine ⟨[], path, hslash, ?_⟩
    intro ending hending
    exact components_plain (isPlain_append hslash hending)

theorem splitName_append {front : String} (hfront : front ≠ "") (rest : String) (hrest : '.' ∉ rest.toList) :
    (splitName (front ++ ("." ++ rest))).1 = front := by
  have hreverse : (front ++ ("." ++ rest)).toList.reverse = rest.toList.reverse ++ '.' :: front.toList.reverse := by
    simp
  have hafter : (rest.toList.reverse ++ '.' :: front.toList.reverse).takeWhile (· != '.') =
      rest.toList.reverse := by
    rw [List.takeWhile_append_of_pos, List.takeWhile_cons_of_neg (by simp), List.append_nil]
    intro c hc
    rw [bne_iff_ne]
    rintro rfl
    exact hrest (List.mem_reverse.1 hc)
  have hbefore : ((rest.toList.reverse ++ '.' :: front.toList.reverse).drop
      (rest.toList.reverse.length + 1)).reverse = front.toList := by
    rw [List.append_cons, List.drop_left' (by simp), List.reverse_reverse]
  have hne : front.toList ≠ [] := fun h => hfront (String.toList_inj.1 h)
  unfold splitName
  simp only [hreverse, hafter, hbefore]
  rw [if_neg, String.ofList_toList]
  rintro (hlength | hempty)
  · simp at hlength
    omega
  · exact hne (List.isEmpty_iff.1 hempty)

/-! ## Parents -/

theorem joinSegments_append {xs ys : List (List Char)} (hxs : xs ≠ []) (hys : ys ≠ []) :
    joinSegments (xs ++ ys) = joinSegments xs ++ '/' :: joinSegments ys := by
  induction xs with
  | nil => exact absurd rfl hxs
  | cons x xs ih =>
    by_cases hnil : xs = []
    · rw [hnil]
      exact joinSegments_cons hys
    · rw [List.cons_append, joinSegments_cons (by simp [hys]), ih hnil, joinSegments_cons hnil,
        List.append_assoc, List.cons_append]

theorem joinSegments_splitOn (cs : List Char) : joinSegments (cs.splitOn '/') = cs := by
  have hjoin (segments : List (List Char)) : joinSegments segments = ['/'].intercalate segments := by
    induction segments with
    | nil => rfl
    | cons segment others ih =>
      cases others with
      | nil => simp [joinSegments]
      | cons other others =>
        rw [joinSegments_cons (List.cons_ne_nil _ _), ih, List.intercalate_cons_cons]
        simp
  rw [hjoin, List.intercalate_splitOn]

theorem isPrefix_joinSegments {xs ys : List (List Char)} (h : xs <+: ys) : joinSegments xs <+: joinSegments ys := by
  obtain ⟨zs, rfl⟩ := h
  by_cases hxs : xs = []
  · rw [hxs]
    exact List.nil_prefix
  · by_cases hzs : zs = []
    · simp [hzs]
    · rw [joinSegments_append hxs hzs]
      exact List.prefix_append _ _

/-- Segments without those at the end that are no components. -/
def trimmed (segments : List (List Char)) : List (List Char) := (segments.reverse.dropWhile isIdle).reverse

theorem isIdle_of_dropWhile {segments : List (List Char)} (h : segments.dropWhile isIdle = segment :: rest) :
    isIdle segment = false := by
  have hhead := List.head?_dropWhile_not isIdle segments
  rwa [h] at hhead

theorem trimmed_append_idle (segments : List (List Char)) :
    ∃ idle, segments = trimmed segments ++ idle ∧ ∀ s ∈ idle, isIdle s = true := by
  refine ⟨(segments.reverse.takeWhile isIdle).reverse, ?_, ?_⟩
  · rw [trimmed, ← List.reverse_append, List.takeWhile_append_dropWhile, List.reverse_reverse]
  · intro s hs
    exact List.all_eq_true.1 List.all_takeWhile s (List.mem_reverse.1 hs)

theorem filter_trimmed (segments : List (List Char)) :
    (trimmed segments).filter (!isIdle ·) = segments.filter (!isIdle ·) := by
  obtain ⟨idle, hsegments, hidle⟩ := trimmed_append_idle segments
  have hnone : idle.filter (!isIdle ·) = [] := by
    rw [List.filter_eq_nil_iff]
    intro s hs
    rw [hidle s hs]
    decide
  have hfilter := congrArg (List.filter (!isIdle ·)) hsegments
  rw [List.filter_append, hnone, List.append_nil] at hfilter
  exact hfilter.symm

theorem isPrefix_trimmed (segments : List (List Char)) : trimmed segments <+: segments := by
  obtain ⟨idle, hsegments, -⟩ := trimmed_append_idle segments
  exact ⟨idle, hsegments.symm⟩

/-- What is left of segments without components. -/
theorem trimmed_eq_nil {segments : List (List Char)} (h : segments.filter (!isIdle ·) = []) :
    trimmed segments = [] := by
  cases hdrop : segments.reverse.dropWhile isIdle with
  | nil => rw [trimmed, hdrop, List.reverse_nil]
  | cons segment rest =>
    have hmem : segment ∈ trimmed segments := by
      rw [trimmed, hdrop, List.mem_reverse]
      exact List.mem_cons_self
    rw [← filter_trimmed, List.filter_eq_nil_iff] at h
    exact absurd (by rw [isIdle_of_dropWhile hdrop]; rfl) (h segment hmem)

/-- The text before the last component, which is a part of the text. -/
theorem names_last (h : (cs.splitOn '/').reverse.dropWhile isIdle = segment :: rest) :
    names cs = names (joinSegments (trimmed rest.reverse)) ++ [componentOf segment] ∧
      joinSegments (trimmed rest.reverse) <+: cs ∧ joinSegments (trimmed rest.reverse) ≠ ['.'] := by
  have hbody : trimmed (cs.splitOn '/') = rest.reverse ++ [segment] := by
    rw [trimmed, h, List.reverse_cons]
  have hbegins : trimmed rest.reverse <+: cs.splitOn '/' := by
    refine (isPrefix_trimmed _).trans ((List.prefix_append _ [segment]).trans ?_)
    rw [← hbody]
    exact isPrefix_trimmed _
  have hslash : ∀ s ∈ trimmed rest.reverse, '/' ∉ s := fun s hs =>
    not_mem_of_mem_splitOn (hbegins.subset hs)
  have hnames := names_joinSegments hslash
  rw [filter_trimmed] at hnames
  refine ⟨?_, ?_, ?_⟩
  · rw [hnames, names, ← filter_trimmed, hbody, List.filter_append, List.map_append,
      List.filter_cons_of_pos (by rw [isIdle_of_dropWhile h]; rfl)]
    rfl
  · have := isPrefix_joinSegments hbegins
    rwa [joinSegments_splitOn] at this
  · intro hdot
    have hnone : names ['.'] = [] := by decide
    rw [hdot, hnone, eq_comm, List.map_eq_nil_iff] at hnames
    rw [trimmed_eq_nil hnames] at hdot
    cases hdot

theorem Relative.of_isPrefix {ds : List Char} (h : Relative cs) (hbegins : ds <+: cs) (hdot : ds ≠ ['.']) :
    Relative ds := by
  obtain ⟨hroot, -, hhere⟩ := h
  refine ⟨?_, hdot, fun hds => hhere (hds.trans hbegins)⟩
  intro hhead
  obtain ⟨more, rfl⟩ := hbegins
  obtain ⟨rest, rfl⟩ := List.head?_eq_some_iff.1 hhead
  exact hroot rfl

theorem parent?_eq_of_segments {lead : String} {body : List (List Char)} (hsegments : segments path = (lead, body))
    (h : body.reverse.dropWhile isIdle = segment :: rest) :
    parent? path = some (lead ++ String.ofList (joinSegments (trimmed rest.reverse))) := by
  unfold parent?
  rw [hsegments]
  simp only [h]
  rw [trimmed, List.reverse_reverse]

theorem getLast?_of_fileName (h : fileName? path = some name) : (components path).getLast? = some (.name name) := by
  unfold fileName? at h
  split at h
  · rename_i hlast
    cases h
    exact hlast
  · cases h

theorem fileName?_of_components {outer : List Component} (h : components path = outer ++ [.name name]) :
    fileName? path = some name := by
  unfold fileName?
  rw [h, List.getLast?_concat]

/-- A name at the end of a path is no part of its lead. -/
theorem segment_of_fileName (first : List Component) (h : fileName? path = some name)
    (hpath : components path = first ++ names cs) (hfirst : .name name ∉ first) :
    ∃ segment rest, (cs.splitOn '/').reverse.dropWhile isIdle = segment :: rest ∧
      componentOf segment = .name name := by
  have hlast := getLast?_of_fileName h
  rw [hpath] at hlast
  cases hdrop : (cs.splitOn '/').reverse.dropWhile isIdle with
  | nil =>
    have hnone : names cs = [] := by
      rw [names, ← filter_trimmed, trimmed, hdrop]
      rfl
    rw [hnone, List.append_nil] at hlast
    exact absurd (List.mem_of_getLast? hlast) hfirst
  | cons segment rest =>
    rw [(names_last hdrop).1, ← List.append_assoc, List.getLast?_concat] at hlast
    exact ⟨segment, rest, rfl, Option.some.inj hlast⟩

/-- A path that ends in a name has a parent, which has all its other components. -/
theorem exists_parent (h : fileName? path = some name) :
    ∃ dir, parent? path = some dir ∧ components path = components dir ++ [.name name] := by
  rcases lead_cases path with ⟨rest, rfl⟩ | rfl | ⟨rest, rfl⟩ | hrelative
  · obtain ⟨segment, others, hdrop, hname⟩ :=
      segment_of_fileName [.root] h (components_root rest) (by simp)
    refine ⟨_, parent?_eq_of_segments (segments_root rest) hdrop, ?_⟩
    rw [components_root, components_root, (names_last hdrop).1, hname, String.toList_ofList]
    rfl
  · cases h
  · -- the separator after the point is a part of what is cut
    have hslash : names ('/' :: rest.toList) = names rest.toList := names_append [] rest.toList
    obtain ⟨segment, others, hdrop, hname⟩ := segment_of_fileName [.here] h
      ((components_here rest).trans (congrArg _ hslash.symm)) (by simp)
    obtain ⟨hnames, hbegins, -⟩ := names_last hdrop
    refine ⟨_, parent?_eq_of_segments (segments_here rest) hdrop, ?_⟩
    rw [components_here, ← hslash, hnames, hname]
    rcases List.prefix_cons_iff.1 hbegins with hnil | ⟨inner, hinner, -⟩
    · rw [hnil]
      rfl
    · have hdir : "." ++ String.ofList ('/' :: inner) = "./" ++ String.ofList inner := by
        apply String.toList_inj.1
        simp
      rw [hinner, hdir, components_here, String.toList_ofList]
      exact congrArg (Component.here :: · ++ [Component.name name]) (names_append [] inner)
  · obtain ⟨segment, others, hdrop, hname⟩ :=
      segment_of_fileName [] h (components_relative hrelative) List.not_mem_nil
    obtain ⟨hnames, hbegins, hdot⟩ := names_last hdrop
    refine ⟨_, parent?_eq_of_segments (segments_relative hrelative) hdrop, ?_⟩
    rw [String.empty_append, components_relative hrelative, hnames, hname, components_relative,
      String.toList_ofList]
    rw [String.toList_ofList]
    exact hrelative.of_isPrefix hbegins hdot

end TypedTemplate.Path

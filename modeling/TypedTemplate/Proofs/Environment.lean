/-
Environments survive being written. What a dialect, the rules of companions and an environment are written as
is decoded to what was written: tables keep their entries and their order, a value that is absent is `null`,
and the fields of a dialect stand beside those of the rules it belongs to.
-/
import TypedTemplate.Environment
import TypedTemplate.Proofs.Json.Reading

namespace TypedTemplate

/-! ## Tables -/

namespace Table

variable {α : Type}

theorem insertInto_new {name : String} {es : List (String × α)} (h : name ∉ es.map Prod.fst) (a : α) :
    insertInto name a es = es ++ [(name, a)] := by
  induction es with
  | nil => rfl
  | cons e es ih =>
    obtain ⟨k, b⟩ := e
    rw [List.map_cons, List.mem_cons, not_or] at h
    rw [insertInto, if_neg (Ne.symm h.1), ih h.2, List.cons_append]

/-- Entering names that are all new adds them in their order. -/
theorem entries_foldl_insert (es : List (String × α)) :
    ∀ {t : Table α}, ((t.entries ++ es).map Prod.fst).Nodup →
      (es.foldl (fun t e => t.insert e.1 e.2) t).entries = t.entries ++ es := by
  induction es with
  | nil => simp
  | cons e es ih =>
    intro t h
    obtain ⟨k, a⟩ := e
    have hnew : k ∉ t.entries.map Prod.fst := by
      rw [List.map_append, List.nodup_append] at h
      exact fun hk => h.2.2 k hk k (by simp) rfl
    have hinsert : (t.insert k a).entries = t.entries ++ [(k, a)] := insertInto_new hnew a
    rw [List.foldl_cons, ih (by simpa [hinsert] using h), hinsert, List.append_assoc, List.singleton_append]

/-- A table is what its entries give. -/
@[simp] theorem ofEntries_entries (t : Table α) : ofEntries t.entries = t := by
  obtain ⟨entries, nodup⟩ := t
  have h := entries_foldl_insert entries (t := empty) (by simpa [empty] using nodup)
  show entries.foldl (fun t e => t.insert e.1 e.2) empty = _
  generalize entries.foldl (fun t e => t.insert e.1 e.2) empty = t at h ⊢
  cases t
  simpa [empty] using h

end Table

/-! ## Lists, tables and options -/

namespace Json

variable {α : Type} {encode : α → Json} {decode : Json → Option α}

/-- Values whose encoding is decoded to them; it holds no number and is not `null`. -/
structure Faithful (encode : α → Json) (decode : Json → Option α) : Prop where
  decode_encode : ∀ a, decode (encode a) = some a
  plain : ∀ a, Plain (encode a)
  ne_null : ∀ a, encode a ≠ .null

theorem mapM_map_encode {β : Type} {f : β → Option α} {g : α → β} (h : ∀ a, f (g a) = some a) (xs : List α) :
    (xs.map g).mapM f = some xs := by
  induction xs with
  | nil => rfl
  | cons x xs ih =>
    rw [List.map_cons, List.mapM_cons, h x, ih]
    rfl

theorem faithful_string : Faithful string asString? where
  decode_encode _ := rfl
  plain _ := trivial
  ne_null _ h := by cases h

theorem faithful_bool : Faithful bool asBool? where
  decode_encode _ := rfl
  plain _ := trivial
  ne_null _ h := by cases h

theorem faithful_texts : Faithful texts (asList? asString?) where
  decode_encode xs := mapM_map_encode faithful_string.decode_encode xs
  plain xs := by
    rw [texts, Plain, plainItems_iff, List.forall_mem_map]
    exact fun x _ => faithful_string.plain x
  ne_null _ h := by cases h

theorem Faithful.table (h : Faithful encode decode) : Faithful (Table.toJson encode) (asTable? decode) where
  decode_encode t := by
    have hentries : (t.entries.map fun e => (e.1, encode e.2)).mapM
        (fun e : String × Json => (decode e.2).map fun a => (e.1, a)) = some t.entries :=
      mapM_map_encode (fun e => by rw [h.decode_encode, Option.map_some]) _
    refine (congrArg (Option.bind · fun values => some (Table.ofEntries values)) hentries).trans ?_
    rw [Option.bind_some, Table.ofEntries_entries]
  plain t := by
    rw [Table.toJson, Plain, plainEntries_iff, List.forall_mem_map]
    exact fun e _ => h.plain e.2
  ne_null _ h := by cases h

-- An option of a value that could be `null` would not be told from an absent one.
theorem Faithful.decode_ofOption (h : Faithful encode decode) (o : Option α) :
    asOption? decode (ofOption encode o) = some o := by
  cases o with
  | none => rfl
  | some a =>
    unfold ofOption asOption?
    split
    · rename_i hnull
      exact absurd hnull (h.ne_null a)
    · rw [h.decode_encode, Option.map_some]

theorem Faithful.plain_ofOption (h : Faithful encode decode) (o : Option α) : Plain (ofOption encode o) := by
  cases o with
  | none => trivial
  | some a => exact h.plain a

end Json

/-! ## Records -/

open Json (Faithful faithful_string faithful_bool faithful_texts plainEntries_iff)

theorem SpecialForm.faithful : Faithful SpecialForm.toJson SpecialForm.ofJson? where
  decode_encode f := by cases f <;> rfl
  plain _ := trivial
  ne_null _ h := by cases h

namespace Dialect

/-- A dialect is decoded from fields that hold its own. -/
theorem ofFields?_of_lookup {fields : List (String × Json)} {d : Dialect}
    (h : ∀ e ∈ d.entries, fields.lookup e.1 = some e.2) : Dialect.ofFields? fields = some d := by
  simp only [Dialect.entries, List.forall_mem_cons] at h
  obtain ⟨htypes, hforms, hglobals, himports, -⟩ := h
  simp only [Dialect.ofFields?, Json.field?, Json.fieldOr?, htypes, hforms, hglobals, himports, Option.bind_some,
    Json.asString?, Option.bind_eq_bind, SpecialForm.faithful.table.decode_encode, faithful_texts.decode_ofOption,
    SpecialForm.faithful.table.table.decode_encode]

theorem plain_entries (d : Dialect) : ∀ e ∈ d.entries, Json.Plain e.2 := by
  simp only [entries, List.forall_mem_cons]
  exact ⟨faithful_string.plain _, SpecialForm.faithful.table.plain _, faithful_texts.plain_ofOption _,
    SpecialForm.faithful.table.table.plain _, by simp⟩

theorem faithful : Faithful Dialect.toJson Dialect.ofJson? where
  decode_encode d := by
    have hrecord : Json.record? Dialect.fields d.toJson = some d.entries := rfl
    rw [Dialect.ofJson?, hrecord, Option.bind_some]
    refine ofFields?_of_lookup ?_
    simp only [entries, List.forall_mem_cons]
    exact ⟨rfl, rfl, rfl, rfl, by simp⟩
  plain d := plainEntries_iff.2 d.plain_entries
  ne_null _ h := by cases h

end Dialect

namespace CompanionRules

/-- The fields of the rules, without those of their dialect. -/
def entries (r : CompanionRules) : List (String × Json) :=
  [("templateExtension", .string r.templateExtension), ("scriptExtensions", Json.texts r.scriptExtensions),
    ("podLayout", .bool r.podLayout), ("classicTemplatesDir", Json.ofOption Json.string r.classicTemplatesDir)]

theorem plain_entries (r : CompanionRules) : ∀ e ∈ r.entries, Json.Plain e.2 := by
  simp only [entries, List.forall_mem_cons]
  exact ⟨faithful_string.plain _, faithful_texts.plain _, faithful_bool.plain _, faithful_string.plain_ofOption _,
    by simp⟩

theorem faithful : Faithful CompanionRules.toJson CompanionRules.ofJson? where
  decode_encode r := by
    have hrecord : Json.openRecord? (Dialect.fields ++ CompanionRules.fields) r.toJson =
        some (r.dialect.entries ++ r.entries) := rfl
    -- the fields of the dialect stand in one object with those of the rules
    have hdialect : Dialect.ofFields? (r.dialect.entries ++ r.entries) = some r.dialect := by
      refine Dialect.ofFields?_of_lookup ?_
      simp only [Dialect.entries, List.forall_mem_cons]
      exact ⟨rfl, rfl, rfl, rfl, by simp⟩
    have hrules : ∀ e ∈ r.entries, (r.dialect.entries ++ r.entries).lookup e.1 = some e.2 := by
      simp only [entries, List.forall_mem_cons]
      exact ⟨rfl, rfl, rfl, rfl, by simp⟩
    generalize r.dialect.entries ++ r.entries = fields at hrecord hdialect hrules
    simp only [entries, List.forall_mem_cons] at hrules
    obtain ⟨hextension, hscripts, hpod, hclassic, -⟩ := hrules
    simp only [CompanionRules.ofJson?, hrecord, Option.bind_some, hdialect, Json.fieldOr?, hextension,
      hscripts, hpod, hclassic, Json.asString?, Json.asBool?, faithful_texts.decode_encode,
      faithful_string.decode_ofOption, Option.bind_eq_bind]
  plain r := by
    refine plainEntries_iff.2 fun e he => ?_
    rcases List.mem_append.1 he with he | he
    · exact r.dialect.plain_entries e he
    · exact r.plain_entries e he
  ne_null _ h := by cases h

end CompanionRules

namespace Environment

theorem faithful : Faithful Environment.toJson Environment.ofJson? where
  decode_encode e := by
    have hrecord : Json.record? fields e.toJson =
        some [("tags", e.tags.toJson (Table.toJson Dialect.toJson)),
          ("nativeTemplate", Json.ofOption Dialect.toJson e.native),
          ("companion", Json.ofOption CompanionRules.toJson e.companion)] := rfl
    rw [ofJson?, hrecord, Option.bind_some, ofFields?]
    simp [Json.fieldOr?, List.lookup_cons, Dialect.faithful.table.table.decode_encode,
      Dialect.faithful.decode_ofOption, CompanionRules.faithful.decode_ofOption]
  plain e := by
    refine plainEntries_iff.2 ?_
    simp only [List.forall_mem_cons]
    exact ⟨Dialect.faithful.table.table.plain _, Dialect.faithful.plain_ofOption _,
      CompanionRules.faithful.plain_ofOption _, by simp⟩
  ne_null _ h := by cases h

/-- An environment is read back from its text, however deeply the lines of the text are indented or with
none. -/
theorem parse?_written (e : Environment) :
    parse? e.toJson.compact = some e ∧ ∀ level, parse? (e.toJson.pretty level) = some e := by
  constructor
  · rw [parse?, Json.parse?_compact (faithful.plain e), Option.bind_some, faithful.decode_encode]
  · intro level
    rw [parse?, Json.parse?_pretty (faithful.plain e), Option.bind_some, faithful.decode_encode]

end Environment

end TypedTemplate

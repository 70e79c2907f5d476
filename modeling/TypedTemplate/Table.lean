/-
Tables: finite maps from names that remember the order in which names were first entered. A new value
for a name replaces the old one in its place.
-/

namespace TypedTemplate

/-- Entries in order of entry, each name once. -/
structure Table (α : Type) where
  entries : List (String × α)
  nodup : (entries.map Prod.fst).Nodup

namespace Table

variable {α : Type}

def empty : Table α := ⟨[], List.nodup_nil⟩

instance : Inhabited (Table α) := ⟨empty⟩

/-- The value of a name. -/
def get? (t : Table α) (name : String) : Option α := t.entries.lookup name

def keys (t : Table α) : List String := t.entries.map Prod.fst

def isEmpty (t : Table α) : Bool := t.entries.isEmpty

/-- Gives a name a value: in its place, or at the end for a new name. -/
def insertInto (name : String) (a : α) : List (String × α) → List (String × α)
  | [] => [(name, a)]
  | (k, b) :: rest => if k = name then (k, a) :: rest else (k, b) :: insertInto name a rest

theorem mem_keys_insertInto (name : String) (a : α) (es : List (String × α)) (x : String) :
    x ∈ (insertInto name a es).map Prod.fst ↔ x = name ∨ x ∈ es.map Prod.fst := by
  induction es with
  | nil => simp [insertInto]
  | cons e es ih =>
    obtain ⟨k, b⟩ := e
    by_cases h : k = name
    · subst h; simp [insertInto]
    · simp only [insertInto, h, if_false, List.map_cons, List.mem_cons, ih]
      constructor
      · rintro (h | h | h) <;> simp [h]
      · rintro (h | h | h) <;> simp [h]

theorem nodup_insertInto (name : String) (a : α) (es : List (String × α))
    (h : (es.map Prod.fst).Nodup) : ((insertInto name a es).map Prod.fst).Nodup := by
  induction es with
  | nil => simp [insertInto]
  | cons e es ih =>
    obtain ⟨k, b⟩ := e
    simp only [List.map_cons, List.nodup_cons] at h
    by_cases hk : k = name
    · simpa only [insertInto, hk, if_true, List.map_cons, List.nodup_cons] using hk ▸ h
    · simp only [insertInto, hk, if_false, List.map_cons, List.nodup_cons]
      refine ⟨?_, ih h.2⟩
      rw [mem_keys_insertInto]
      rintro (h' | h')
      · exact hk h'
      · exact h.1 h'

def insert (t : Table α) (name : String) (a : α) : Table α :=
  ⟨insertInto name a t.entries, nodup_insertInto name a t.entries t.nodup⟩

/-- The entries in order, a later value of a name replacing an earlier one. -/
def ofEntries (es : List (String × α)) : Table α := es.foldl (fun t (k, a) => t.insert k a) empty

end Table

end TypedTemplate

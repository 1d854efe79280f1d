/-!
# Tables

Finite maps from names to values, kept as the list of their entries in increasing order of the
names. Two tables with the same entries are equal, and iterating a table goes through the names in
order.
-/

namespace Wiring

/-- A finite map from names, listed in increasing order of the names. -/
structure Table (β : Type) where
  entries : List (String × β)
  ordered : entries.Pairwise (fun a b => a.1 < b.1)

namespace Table

variable {β γ : Type}

instance [DecidableEq β] : DecidableEq (Table β) := fun s t =>
  match decEq s.entries t.entries with
  | isTrue h => isTrue (by cases s; cases t; cases h; rfl)
  | isFalse h => isFalse fun e => h (by rw [e])

@[ext] theorem ext {s t : Table β} (h : s.entries = t.entries) : s = t := by
  cases s; cases t; cases h; rfl

/-- The table with no entry. -/
def empty : Table β := ⟨[], .nil⟩

instance : Inhabited (Table β) := ⟨empty⟩

/-- Put a value into ordered entries, in place of an earlier one of the same name. -/
def insertEntry (name : String) (value : β) : List (String × β) → List (String × β)
  | [] => [(name, value)]
  | e :: rest =>
    if name < e.1 then (name, value) :: e :: rest
    else if name = e.1 then (name, value) :: rest
    else e :: insertEntry name value rest

theorem mem_insertEntry {name : String} {value : β} {l : List (String × β)} {e : String × β}
    (h : e ∈ insertEntry name value l) : e = (name, value) ∨ e ∈ l := by
  induction l with
  | nil => simpa [insertEntry] using h
  | cons d rest ih =>
    unfold insertEntry at h
    split at h
    · simpa using h
    · split at h
      · rcases List.mem_cons.1 h with h | h
        · exact .inl h
        · exact .inr (List.mem_cons_of_mem _ h)
      · rcases List.mem_cons.1 h with h | h
        · exact .inr (h ▸ List.mem_cons_self)
        · exact (ih h).imp_right (List.mem_cons_of_mem _)

theorem pairwise_insertEntry {name : String} {value : β} {l : List (String × β)}
    (h : l.Pairwise (fun a b => a.1 < b.1)) :
    (insertEntry name value l).Pairwise (fun a b => a.1 < b.1) := by
  induction l with
  | nil => simp [insertEntry]
  | cons d rest ih =>
    obtain ⟨hd, hrest⟩ := List.pairwise_cons.1 h
    unfold insertEntry
    split
    next hlt =>
      refine List.pairwise_cons.2 ⟨fun e he => ?_, h⟩
      rcases List.mem_cons.1 he with he | he
      · exact he ▸ hlt
      · exact String.lt_trans hlt (hd e he)
    next hlt =>
      split
      next heq => exact List.pairwise_cons.2 ⟨fun e he => heq ▸ hd e he, hrest⟩
      next hne =>
        refine List.pairwise_cons.2 ⟨fun e he => ?_, ih hrest⟩
        rcases mem_insertEntry he with he | he
        · subst he
          rcases Std.lt_trichotomy name d.1 with h' | h' | h'
          · exact absurd h' hlt
          · exact absurd h' hne
          · exact h'
        · exact hd e he

/-- Put a value under a name, in place of an earlier one. -/
def insert (t : Table β) (name : String) (value : β) : Table β :=
  ⟨insertEntry name value t.entries, pairwise_insertEntry t.ordered⟩

/-- The table of a list of entries; of several values under one name the last one stays. -/
def ofList (l : List (String × β)) : Table β :=
  l.foldl (fun t e => t.insert e.1 e.2) empty

/-- The entries in increasing order of the names. -/
def toList (t : Table β) : List (String × β) := t.entries

/-- The names in increasing order. -/
def names (t : Table β) : List String := t.entries.map (·.1)

/-- The value under a name. -/
def get? (t : Table β) (name : String) : Option β := t.entries.lookup name

/-- Is there a value under this name? -/
def contains (t : Table β) (name : String) : Bool := (t.get? name).isSome

/-- Has the table no entry? -/
def isEmpty (t : Table β) : Bool := t.entries.isEmpty

/-- The number of entries. -/
def size (t : Table β) : Nat := t.entries.length

/-- The number of characters of all names and values. -/
def textSize (t : Table String) : Nat :=
  (t.entries.flatMap fun e => e.1.toList ++ e.2.toList).length

@[simp] theorem toList_empty : (empty : Table β).toList = [] := rfl

@[simp] theorem get?_empty (name : String) : (empty : Table β).get? name = none := rfl

theorem lookup_insertEntry (name : String) (value : β) (l : List (String × β)) (key : String) :
    (insertEntry name value l).lookup key =
      if key = name then some value else l.lookup key := by
  have cons (k : String) (e : String × β) (r : List (String × β)) :
      (e :: r).lookup k = if k = e.1 then some e.2 else r.lookup k := by
    rw [List.lookup_cons]
    by_cases h : k = e.1
    · simp [h]
    · simp [h, show (k == e.1) = false by simpa using h]
  induction l with
  | nil => simp only [insertEntry, cons]
  | cons d rest ih =>
    unfold insertEntry
    split
    · simp only [cons]
    · split
      next h => subst h; simp only [cons]; split <;> rfl
      next hne =>
        rw [cons, ih, cons]
        by_cases h : key = d.1
        · subst h; simp [show ¬ d.1 = name from fun e => hne e.symm]
        · simp [h]

theorem get?_insert (t : Table β) (name : String) (value : β) (key : String) :
    (t.insert name value).get? key = if key = name then some value else t.get? key :=
  lookup_insertEntry name value t.entries key

end Table

end Wiring

/-
Maps from text to values, kept as a list in strictly ascending order of the keys (code point order,
which is also the order of the keys' UTF-8 bytes). The order is part of the type, so two maps with
the same entries are equal, and a map lists its entries the way they are printed.
-/
namespace LayerPage

/-- A finite map with text keys, in ascending key order. -/
structure SortedMap (β : Type) where
  /-- The entries, smallest key first. -/
  toList : List (String × β)
  /-- No key occurs twice and each is smaller than the next. -/
  ascending : toList.Pairwise (·.1 < ·.1)
  deriving DecidableEq

namespace SortedMap

variable {β γ : Type}

-- ================================================================ entry lists

/-- Put an entry in its place in an ascending list, over any entry with the same key. -/
def insertEntry (key : String) (value : β) : List (String × β) → List (String × β)
  | [] => [(key, value)]
  | (k, v) :: rest =>
    if key < k then (key, value) :: (k, v) :: rest
    else if key = k then (key, value) :: rest
    else (k, v) :: insertEntry key value rest

theorem mem_insertEntry {key : String} {value : β} {entries : List (String × β)}
    {e : String × β} (h : e ∈ insertEntry key value entries) :
    e = (key, value) ∨ e ∈ entries := by
  induction entries with
  | nil => simpa [insertEntry] using h
  | cons head rest ih =>
    obtain ⟨k, v⟩ := head
    simp only [insertEntry] at h
    split at h
    · simpa using h
    · split at h
      · rcases List.mem_cons.1 h with h | h
        · exact Or.inl h
        · exact Or.inr (List.mem_cons_of_mem _ h)
      · rcases List.mem_cons.1 h with h | h
        · exact Or.inr (h ▸ List.mem_cons_self)
        · rcases ih h with h | h
          · exact Or.inl h
          · exact Or.inr (List.mem_cons_of_mem _ h)

/-- Of two keys neither of which is smaller, both are the same. -/
private theorem lt_of_not_lt_of_ne {a b : String} (h : ¬a < b) (hne : ¬a = b) : b < a := by
  rcases String.le_total a b with hab | hba
  · exact absurd (String.le_antisymm hab (String.not_lt.1 h)) hne
  · exact Decidable.byContradiction fun hlt =>
      hne (String.le_antisymm (String.not_lt.1 hlt) hba)

theorem pairwise_insertEntry {key : String} {value : β} {entries : List (String × β)}
    (h : entries.Pairwise (·.1 < ·.1)) :
    (insertEntry key value entries).Pairwise (·.1 < ·.1) := by
  induction entries with
  | nil => simp [insertEntry]
  | cons head rest ih =>
    obtain ⟨k, v⟩ := head
    obtain ⟨hhead, hrest⟩ := List.pairwise_cons.1 h
    simp only [insertEntry]
    split
    · next hlt =>
      refine List.pairwise_cons.2 ⟨fun e he => ?_, h⟩
      rcases List.mem_cons.1 he with rfl | he
      · exact hlt
      · exact String.lt_trans hlt (hhead e he)
    · next hlt =>
      split
      · next heq =>
        subst heq
        exact List.pairwise_cons.2 ⟨hhead, hrest⟩
      · next hne =>
        refine List.pairwise_cons.2 ⟨fun e he => ?_, ih hrest⟩
        rcases mem_insertEntry he with rfl | he
        · exact lt_of_not_lt_of_ne hlt hne
        · exact hhead e he

-- ======================================================================= maps

def empty : SortedMap β :=
  ⟨[], List.Pairwise.nil⟩

instance : EmptyCollection (SortedMap β) := ⟨empty⟩
instance : Inhabited (SortedMap β) := ⟨empty⟩

/-- Map a key to a value, replacing any earlier value. -/
def insert (map : SortedMap β) (key : String) (value : β) : SortedMap β :=
  ⟨insertEntry key value map.toList, pairwise_insertEntry map.ascending⟩

/-- The value of a key, if it has one. -/
def get? (map : SortedMap β) (key : String) : Option β :=
  map.toList.lookup key

def contains (map : SortedMap β) (key : String) : Bool :=
  (map.get? key).isSome

def isEmpty (map : SortedMap β) : Bool :=
  map.toList.isEmpty

def size (map : SortedMap β) : Nat :=
  map.toList.length

/-- The keys, in ascending order. -/
def keys (map : SortedMap β) : List String :=
  map.toList.map Prod.fst

/-- Insert entries one after another; a later value of a key replaces an earlier one. -/
def insertAll (map : SortedMap β) (entries : List (String × β)) : SortedMap β :=
  entries.foldl (fun map (key, value) => map.insert key value) map

/-- The map with the given entries; of two with the same key the later one counts. -/
def ofList (entries : List (String × β)) : SortedMap β :=
  empty.insertAll entries

/-- Lay one map over another: where both have a value for a key, the upper one's counts. -/
def overlay (lower upper : SortedMap β) : SortedMap β :=
  lower.insertAll upper.toList

end SortedMap

end LayerPage

/-
Looking things up in sorted maps: what each operation does to the value
of a key. After this file no proof opens the entry list of a map again;
a map is the function `get?`, and `SortedMap.ext_get?` says that this
function is all there is to it.
-/
import LayerPage.SortedMap

namespace LayerPage

/-- Lists in strictly ascending order are the same if they have the same
members. -/
theorem eq_of_ascending {β : Type} {lt : β → β → Prop}
    (hasymm : ∀ a b, lt a b → ¬lt b a) {l₁ l₂ : List β}
    (h₁ : l₁.Pairwise lt) (h₂ : l₂.Pairwise lt)
    (h : ∀ a, a ∈ l₁ ↔ a ∈ l₂) : l₁ = l₂ := by
  have hne : ∀ {a b : β}, lt a b → a ≠ b := by
    rintro a b hlt rfl
    exact hasymm a a hlt hlt
  have hperm : l₁.Perm l₂ :=
    (List.perm_ext_iff_of_nodup (h₁.imp hne) (h₂.imp hne)).2 h
  refine hperm.eq_of_pairwise ?_ h₁ h₂
  intro a b _ _ hab hba
  exact absurd hba (hasymm a b hab)

namespace SortedMap

variable {β : Type}

-- ============================================================= lookup

/-- The first entry of a list is found under its own key only. -/
private theorem lookup_head (k key : String) (value : β)
    (rest : List (String × β)) :
    ((key, value) :: rest).lookup k
      = if k = key then some value else rest.lookup k := by
  rw [List.lookup_cons]
  by_cases hk : k = key
  · simp [hk]
  · rw [if_neg hk, beq_eq_false_iff_ne.2 hk]

/-- An inserted key has the new value, and every other key has the
old one. -/
theorem lookup_insertEntry (key k : String) (value : β)
    (entries : List (String × β)) :
    (insertEntry key value entries).lookup k
      = if k = key then some value else entries.lookup k := by
  induction entries with
  | nil => exact lookup_head k key value []
  | cons head rest ih =>
      obtain ⟨k', v⟩ := head
      rw [insertEntry]
      split
      · exact lookup_head k key value _
      · split
        · next heq =>
          subst heq
          rw [lookup_head, lookup_head]
          split
          · rfl
          · rfl
        · next hne =>
          rw [lookup_head, lookup_head, ih]
          by_cases hk : k = k'
          · subst hk
            rw [if_pos rfl, if_neg (Ne.symm hne), if_pos rfl]
          · rw [if_neg hk, if_neg hk]

/-- An inserted key has the new value, and every other key has the
old one. -/
theorem get?_insert (map : SortedMap β) (key k : String) (value : β) :
    (map.insert key value).get? k
      = if k = key then some value else map.get? k :=
  lookup_insertEntry key k value map.toList

theorem insertAll_append (map : SortedMap β)
    (first later : List (String × β)) :
    map.insertAll (first ++ later) = (map.insertAll first).insertAll later :=
  List.foldl_append

/-- Of several entries with one key the last one counts. -/
theorem get?_insertAll (map : SortedMap β) (entries : List (String × β))
    (k : String) :
    (map.insertAll entries).get? k
      = (entries.reverse.lookup k).or (map.get? k) := by
  induction entries generalizing map with
  | nil => simp [insertAll]
  | cons entry rest ih =>
      obtain ⟨key, value⟩ := entry
      have hstep : map.insertAll ((key, value) :: rest)
          = (map.insert key value).insertAll rest := rfl
      rw [hstep, ih, get?_insert, List.reverse_cons, List.lookup_append,
        Option.or_assoc]
      congr 1
      rw [lookup_head]
      by_cases hk : k = key
      · simp [hk]
      · simp [hk]

-- ====================================================== entries of a map

/-- Every key stands in front of all later ones, so an entry of the list
is what its key is mapped to. -/
theorem mem_toList_iff {map : SortedMap β} {k : String} {v : β} :
    (k, v) ∈ map.toList ↔ map.get? k = some v := by
  obtain ⟨entries, hasc⟩ := map
  show (k, v) ∈ entries ↔ entries.lookup k = some v
  induction entries with
  | nil => simp
  | cons head rest ih =>
      obtain ⟨k', v'⟩ := head
      obtain ⟨hhead, hrest⟩ := List.pairwise_cons.1 hasc
      rw [List.mem_cons, ih hrest, lookup_head]
      by_cases hk : k = k'
      · subst hk
        have hfree : rest.lookup k = none := by
          rw [List.lookup_eq_none_iff]
          intro p hp
          have hlt : k < p.1 := hhead p hp
          rw [bne_iff_ne]
          intro heq
          exact String.lt_irrefl k (heq ▸ hlt)
        simp [hfree, eq_comm]
      · simp [hk]

/-- The keys of a map are those it contains. -/
theorem mem_keys_iff {map : SortedMap β} {k : String} :
    k ∈ map.keys ↔ map.contains k = true := by
  unfold contains keys
  rw [Option.isSome_iff_exists, List.mem_map]
  constructor
  · rintro ⟨⟨_, v⟩, hmem, rfl⟩
    exact ⟨v, mem_toList_iff.1 hmem⟩
  · rintro ⟨v, hget⟩
    exact ⟨(k, v), mem_toList_iff.2 hget, rfl⟩

/-- If a list has at most one value for a key, that is what it finds, from
either end. -/
theorem lookup_eq_of_mem_iff {l : List (String × β)} {k : String}
    {value? : Option β} (h : ∀ v, (k, v) ∈ l ↔ value? = some v) :
    l.lookup k = value? := by
  cases hl : l.lookup k with
  | some v =>
      obtain ⟨l₁, l₂, hsplit, -⟩ := List.lookup_eq_some_iff.1 hl
      have hmem : (k, v) ∈ l := by
        rw [hsplit]
        simp
      exact ((h v).1 hmem).symm
  | none =>
      cases value? with
      | none => rfl
      | some v =>
          rw [List.lookup_eq_none_iff] at hl
          simpa using hl (k, v) ((h v).2 rfl)

/-- A map's entry list holds no key twice, so reading it backwards finds
the same values. -/
theorem lookup_reverse_toList (map : SortedMap β) (k : String) :
    map.toList.reverse.lookup k = map.get? k := by
  apply lookup_eq_of_mem_iff
  intro v
  rw [List.mem_reverse, mem_toList_iff]

/-- What is in a map after insertions was inserted, or was in it before. -/
theorem mem_insertAll {map : SortedMap β} {entries : List (String × β)}
    {entry : String × β} (h : entry ∈ (map.insertAll entries).toList) :
    entry ∈ entries ∨ entry ∈ map.toList := by
  obtain ⟨k, v⟩ := entry
  rw [mem_toList_iff, get?_insertAll, Option.or_eq_some_iff] at h
  rcases h with h | ⟨-, h⟩
  · obtain ⟨l₁, l₂, hsplit, -⟩ := List.lookup_eq_some_iff.1 h
    refine .inl (List.mem_reverse.1 ?_)
    rw [hsplit]
    simp
  · exact .inr (mem_toList_iff.2 h)

/-- Laid over one another, the upper map's value of a key counts. -/
theorem get?_overlay (lower upper : SortedMap β) (k : String) :
    (lower.overlay upper).get? k = (upper.get? k).or (lower.get? k) := by
  rw [overlay, get?_insertAll, lookup_reverse_toList]

-- ======================================================= extensionality

/-- A map is the function from its keys to their values. -/
theorem ext_get? {m₁ m₂ : SortedMap β} (h : ∀ k, m₁.get? k = m₂.get? k) :
    m₁ = m₂ := by
  have hlist : m₁.toList = m₂.toList := by
    refine eq_of_ascending (fun _ _ => String.lt_asymm) m₁.ascending
      m₂.ascending fun e => ?_
    rw [mem_toList_iff, mem_toList_iff, h]
  cases m₁
  cases m₂
  cases hlist
  rfl

/-- A map is that of its own entries. -/
theorem ofList_toList (map : SortedMap β) : ofList map.toList = map := by
  apply ext_get?
  intro k
  rw [ofList, get?_insertAll, lookup_reverse_toList]
  exact Option.or_none

end SortedMap

end LayerPage

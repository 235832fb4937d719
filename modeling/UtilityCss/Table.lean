import Std.Data.TreeMap

/-!
# Tables

A table holds one value for each key and keeps its keys in the order in which they were first inserted.
A later value for a known key takes the earlier one's place. `get?_insert` and `keys_insert` say what an
insertion does.
-/

namespace UtilityCss

/-- Values by key, with the keys in the order of their first insertion. -/
structure Table (β : Type) where
  order : Array String
  cells : Std.TreeMap String β
  nodup : order.toList.Nodup
  mem_order : ∀ key, key ∈ order.toList ↔ key ∈ cells

namespace Table

variable {β γ : Type}

def empty : Table β where
  order := #[]
  cells := ∅
  nodup := List.nodup_nil
  mem_order := by simp

instance : EmptyCollection (Table β) := ⟨empty⟩

instance : Inhabited (Table β) := ⟨empty⟩

def get? (t : Table β) (key : String) : Option β :=
  t.cells[key]?

def contains (t : Table β) (key : String) : Bool :=
  t.cells.contains key

def keys (t : Table β) : List String :=
  t.order.toList

def size (t : Table β) : Nat :=
  t.order.size

def isEmpty (t : Table β) : Bool :=
  t.order.isEmpty

/-- A known key keeps its place and gets the new value; a new key comes last. -/
def insert (t : Table β) (key : String) (value : β) : Table β :=
  if h : key ∈ t.cells then
    { order := t.order
      cells := t.cells.insert key value
      nodup := t.nodup
      mem_order := fun k => by
        rw [t.mem_order, Std.TreeMap.mem_insert, Std.LawfulEqCmp.compare_eq_iff_eq]
        exact ⟨Or.inr, fun | .inl e => e ▸ h | .inr m => m⟩ }
  else
    { order := t.order.push key
      cells := t.cells.insert key value
      nodup := by
        rw [Array.toList_push, List.nodup_append]
        refine ⟨t.nodup, by simp, fun a ha b hb e => h ?_⟩
        rw [List.mem_singleton] at hb
        exact (t.mem_order key).1 (hb ▸ e ▸ ha)
      mem_order := fun k => by
        rw [Array.toList_push, List.mem_append, t.mem_order, List.mem_singleton,
          Std.TreeMap.mem_insert, Std.LawfulEqCmp.compare_eq_iff_eq, or_comm, eq_comm] }

def insertAll (t : Table β) (pairs : List (String × β)) : Table β :=
  pairs.foldl (fun t pair => t.insert pair.1 pair.2) t

def ofList (pairs : List (String × β)) : Table β :=
  empty.insertAll pairs

/-- The pairs in the order of the keys. -/
def toList (t : Table β) : List (String × β) :=
  t.keys.filterMap fun key => (t.get? key).map (key, ·)

/-- The pairs of `u` inserted behind those of `t`. -/
def extend (t u : Table β) : Table β :=
  t.insertAll u.toList

/-! ### What an insertion does -/

@[simp] theorem get?_empty (key : String) : (∅ : Table β).get? key = none := by
  show (∅ : Std.TreeMap String β)[key]? = none
  simp

@[simp] theorem keys_empty : (∅ : Table β).keys = [] := rfl

theorem get?_insert (t : Table β) (key : String) (value : β) (k : String) :
    (t.insert key value).get? k = if key = k then some value else t.get? k := by
  have cells : (t.insert key value).cells = t.cells.insert key value := by
    unfold insert; split <;> rfl
  simp only [get?, cells, Std.TreeMap.getElem?_insert, Std.LawfulEqCmp.compare_eq_iff_eq]

theorem contains_iff_mem_keys {t : Table β} {key : String} :
    t.contains key = true ↔ key ∈ t.keys := by
  rw [keys, t.mem_order]; rfl

theorem contains_eq_isSome (t : Table β) (key : String) : t.contains key = (t.get? key).isSome := by
  rw [contains, get?, Std.TreeMap.contains_eq_isSome_getElem?]

theorem keys_insert (t : Table β) (key : String) (value : β) :
    (t.insert key value).keys = if key ∈ t.keys then t.keys else t.keys ++ [key] := by
  unfold insert
  split
  · rename_i h
    exact (if_pos (show key ∈ t.keys from (t.mem_order key).2 h)).symm
  · rename_i h
    rw [if_neg (show key ∉ t.keys from fun m => h ((t.mem_order key).1 m))]
    simp [keys]

theorem nodup_keys (t : Table β) : t.keys.Nodup := t.nodup

theorem mem_keys_iff {t : Table β} {key : String} : key ∈ t.keys ↔ (t.get? key).isSome = true := by
  rw [← contains_iff_mem_keys, contains_eq_isSome]

theorem map_fst_toList (t : Table β) : t.toList.map (·.1) = t.keys := by
  have all : ∀ key ∈ t.keys, (t.get? key).isSome = true := fun key h => mem_keys_iff.1 h
  unfold toList
  generalize t.keys = keys at all
  induction keys with
  | nil => rfl
  | cons key keys ih =>
    obtain ⟨value, hv⟩ := Option.isSome_iff_exists.1 (all key List.mem_cons_self)
    simp only [List.filterMap_cons, hv, Option.map_some, List.map_cons]
    rw [ih fun k hk => all k (List.mem_cons_of_mem _ hk)]

theorem mem_toList_iff {t : Table β} {key : String} {value : β} :
    (key, value) ∈ t.toList ↔ t.get? key = some value := by
  simp only [toList, List.mem_filterMap, Option.map_eq_some_iff, Prod.mk.injEq]
  constructor
  · rintro ⟨k, _, v, hv, rfl, rfl⟩
    exact hv
  · intro h
    exact ⟨key, mem_keys_iff.2 (by rw [h]; rfl), value, h, rfl, rfl⟩

@[simp] theorem insertAll_nil (t : Table β) : t.insertAll [] = t := rfl

@[simp] theorem insertAll_cons (t : Table β) (pair : String × β) (pairs : List (String × β)) :
    t.insertAll (pair :: pairs) = (t.insert pair.1 pair.2).insertAll pairs := rfl

theorem mem_keys_insertAll_iff {t : Table β} {pairs : List (String × β)} {key : String} :
    key ∈ (t.insertAll pairs).keys ↔ key ∈ t.keys ∨ key ∈ pairs.map (·.1) := by
  induction pairs generalizing t with
  | nil => simp
  | cons pair pairs ih =>
    rw [insertAll_cons, ih, keys_insert, List.map_cons, List.mem_cons]
    split
    · rename_i known
      constructor
      · exact Or.imp_right .inr
      · rintro (old | rfl | new)
        · exact .inl old
        · exact .inl known
        · exact .inr new
    · rw [List.mem_append, List.mem_singleton, or_assoc]

theorem mem_keys_ofList_iff {pairs : List (String × β)} {key : String} :
    key ∈ (Table.ofList pairs).keys ↔ key ∈ pairs.map (·.1) := by
  rw [ofList, mem_keys_insertAll_iff]
  exact or_iff_right List.not_mem_nil

end Table

end UtilityCss

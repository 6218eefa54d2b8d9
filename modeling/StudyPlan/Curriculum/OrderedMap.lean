/-!
# Maps that remember the order of their keys

A finite map kept as a list of its entries, in the order in which the keys were
first put in.  The single way to change it is `upsert`, which works on the entry of
a key in place and, when there is none, appends one at the end.  So changing the
value of a key never moves the key.

Two maps may hold the same entries in a different order; `agrees` compares them
without looking at the order.
-/

namespace StudyPlan

/-- A finite map whose keys stand in the order of their first insertion. -/
structure OrderedMap (κ υ : Type) where
  entries : List (κ × υ)
  deriving DecidableEq, Repr

namespace OrderedMap

variable {κ υ : Type} [DecidableEq κ]

/-- The map without entries. -/
def empty : OrderedMap κ υ := ⟨[]⟩

/-- The keys, in order of first insertion. -/
def keys (m : OrderedMap κ υ) : List κ := m.entries.map Prod.fst

/-- The number of entries. -/
def size (m : OrderedMap κ υ) : Nat := m.entries.length

/-- The value of a key. -/
def find? (m : OrderedMap κ υ) (k : κ) : Option υ :=
  m.entries.lookup k

/-- The entries with the value of `k` changed by `f`.  A key that is not there
starts from `init` and goes to the end. -/
def upsertEntries (k : κ) (init : υ) (f : υ → υ) : List (κ × υ) → List (κ × υ)
  | [] => [(k, f init)]
  | (k', v) :: rest =>
    if k = k' then (k', f v) :: rest else (k', v) :: upsertEntries k init f rest

/-- The map with the value of `k` changed by `f`, counting a missing value as
`init`. -/
def upsert (m : OrderedMap κ υ) (k : κ) (init : υ) (f : υ → υ) : OrderedMap κ υ :=
  ⟨upsertEntries k init f m.entries⟩

/-- The map with the value of `k` set to `v`. -/
def insert (m : OrderedMap κ υ) (k : κ) (v : υ) : OrderedMap κ υ :=
  m.upsert k v fun _ => v

/-- Do two maps give the same value to the same keys, in whatever order? -/
def agrees [BEq υ] (m m' : OrderedMap κ υ) : Bool :=
  m.size == m'.size && m.entries.all fun (k, v) => m'.find? k == some v

/-! ## What a change does to the keys and the values -/

@[simp] theorem find?_empty (k : κ) : (empty : OrderedMap κ υ).find? k = none := rfl

/-- The value of the changed key. -/
theorem find?_upsert_self (m : OrderedMap κ υ) (k : κ) (init : υ) (f : υ → υ) :
    (m.upsert k init f).find? k = some (f ((m.find? k).getD init)) := by
  obtain ⟨entries⟩ := m
  simp only [upsert, find?]
  induction entries with
  | nil => simp [upsertEntries]
  | cons e rest ih =>
    obtain ⟨k', v⟩ := e
    by_cases h : k = k'
    · subst h; simp [upsertEntries]
    · have hb : (k == k') = false := by simpa using h
      simp [upsertEntries, h, List.lookup_cons, hb, ih]

/-- The other keys keep their values. -/
theorem find?_upsert_of_ne (m : OrderedMap κ υ) {k k' : κ} (hne : k' ≠ k) (init : υ)
    (f : υ → υ) : (m.upsert k init f).find? k' = m.find? k' := by
  obtain ⟨entries⟩ := m
  simp only [upsert, find?]
  have hb : (k' == k) = false := by simpa using hne
  induction entries with
  | nil => simp [upsertEntries, List.lookup_cons, hb]
  | cons e rest ih =>
    obtain ⟨k₁, v⟩ := e
    by_cases h : k = k₁
    · subst h; simp [upsertEntries, List.lookup_cons, hb]
    · simp [upsertEntries, h, List.lookup_cons, ih]

/-- A change keeps the keys in place, and a new key comes last. -/
theorem keys_upsert (m : OrderedMap κ υ) (k : κ) (init : υ) (f : υ → υ) :
    (m.upsert k init f).keys = if k ∈ m.keys then m.keys else m.keys ++ [k] := by
  obtain ⟨entries⟩ := m
  simp only [upsert, keys]
  induction entries with
  | nil => simp [upsertEntries]
  | cons e rest ih =>
    obtain ⟨k', v⟩ := e
    by_cases h : k = k'
    · subst h; simp [upsertEntries]
    · simp only [upsertEntries, h, if_false, List.map_cons, ih, List.mem_cons, false_or]
      split <;> simp_all

/-! ## Entries and look-ups -/

/-- A key has a value exactly when it was put in. -/
theorem isSome_find?_iff (m : OrderedMap κ υ) (k : κ) :
    (m.find? k).isSome = true ↔ k ∈ m.keys := by
  obtain ⟨entries⟩ := m
  simp only [find?, keys]
  induction entries with
  | nil => simp
  | cons e rest ih =>
    obtain ⟨k', v⟩ := e
    by_cases h : k = k'
    · subst h; simp
    · have hb : (k == k') = false := by simpa using h
      simp [List.lookup_cons, hb, h, ih]

/-- The value of a key stands in an entry. -/
theorem mem_entries_of_find?_eq_some {m : OrderedMap κ υ} {k : κ} {v : υ}
    (h : m.find? k = some v) : (k, v) ∈ m.entries := by
  obtain ⟨before, behind, hentries, -⟩ := List.lookup_eq_some_iff.1 h
  rw [hentries]
  simp

/-- Where no key comes twice, the value of a key is the one in its entry. -/
theorem find?_eq_some_of_mem {m : OrderedMap κ υ} (hkeys : m.keys.Nodup) {k : κ} {v : υ}
    (h : (k, v) ∈ m.entries) : m.find? k = some v := by
  obtain ⟨entries⟩ := m
  simp only [find?, keys] at *
  induction entries with
  | nil => simp at h
  | cons e rest ih =>
    obtain ⟨k', v'⟩ := e
    rw [List.map_cons, List.nodup_cons] at hkeys
    rcases List.mem_cons.1 h with heq | hrest
    · cases heq
      simp
    · have hne : k ≠ k' := by
        rintro rfl
        exact hkeys.1 (List.mem_map.2 ⟨_, hrest, rfl⟩)
      have hb : (k == k') = false := by simpa using hne
      rw [List.lookup_cons, hb]
      exact ih hkeys.2 hrest

end OrderedMap
end StudyPlan

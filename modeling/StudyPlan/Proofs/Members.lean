import Mathlib.Data.List.Forall2
import Mathlib.Data.List.Nodup
import Mathlib.Data.Option.Basic
import StudyPlan.Curriculum.OrderedMap
import StudyPlan.Json.Basic

/-!
# Objects and the order of their members

A JSON object lists its members in an order, and the order means nothing.  What counts
is the value of each key (`Json.get?`), and where no key comes twice it does not depend
on the order.

So there are two things to say of a value that is written with sorted keys.  It is the
same value but for the order of members (`Json.Same`), all the way down.  And if no
object in it has a key twice (`Json.Keyed`), then each key has the value that it had
before (`Keyed.get?_sortKeys`).
-/

namespace StudyPlan
namespace Json

/-- The value of a key in an object. -/
def get? : Json → String → Option Json
  | object members, key => members.lookup key
  | _, _ => none

theorem get?_object (members : List (String × Json)) (key : String) :
    (object members).get? key = members.lookup key := rfl

/-- The keys of an object, in the order in which they are listed. -/
def keys : Json → List String
  | object members => members.map Prod.fst
  | _ => []

/-- No object in the value has a key twice. -/
inductive Keyed : Json → Prop
  | null : Keyed null
  | bool (b : Bool) : Keyed (bool b)
  | number (n : Nat) : Keyed (number n)
  | string (s : String) : Keyed (string s)
  | array {items : List Json} : (∀ j ∈ items, Keyed j) → Keyed (array items)
  | object {members : List (String × Json)} : (members.map Prod.fst).Nodup →
      (∀ m ∈ members, Keyed m.2) → Keyed (object members)

/-- The same value but for the order of members.  Two objects have the same keys, with the
same values, and may list them differently. -/
inductive Same : Json → Json → Prop
  | refl (j : Json) : Same j j
  | array {js ks : List Json} : List.Forall₂ Same js ks → Same (array js) (array ks)
  | object {ms ns ns' : List (String × Json)} : ms.map Prod.fst = ns.map Prod.fst →
      List.Forall₂ Same (ms.map Prod.snd) (ns.map Prod.snd) → ns.Perm ns' →
      Same (object ms) (object ns')

/-! ## Keys that come once -/

/-- Where no key comes twice, its value does not depend on the order. -/
theorem lookup_eq_of_reordered {α : Type} {ms ns : List (String × α)} (h : ms.Perm ns)
    (hkeys : (ms.map Prod.fst).Nodup) (key : String) : ms.lookup key = ns.lookup key := by
  have hkeys' : (ns.map Prod.fst).Nodup := (h.map Prod.fst).nodup_iff.1 hkeys
  refine Option.ext fun a => ?_
  constructor
  · intro hlookup
    have hmem := OrderedMap.mem_entries_of_find?_eq_some (m := ⟨ms⟩) hlookup
    exact OrderedMap.find?_eq_some_of_mem (m := ⟨ns⟩) hkeys' (h.mem_iff.1 hmem)
  · intro hlookup
    have hmem := OrderedMap.mem_entries_of_find?_eq_some (m := ⟨ns⟩) hlookup
    exact OrderedMap.find?_eq_some_of_mem (m := ⟨ms⟩) hkeys (h.mem_iff.2 hmem)

theorem lookup_map_snd {α β : Type} (f : α → β) (ms : List (String × α)) (key : String) :
    (ms.map fun m => (m.1, f m.2)).lookup key = (ms.lookup key).map f := by
  induction ms with
  | nil => rfl
  | cons m ms ih =>
    rw [List.map_cons, List.lookup_cons, List.lookup_cons, ih]
    split <;> rfl

/-- What is found in a value has no key twice either. -/
theorem Keyed.of_get? {j k : Json} (h : Keyed j) {key : String} (hk : j.get? key = some k) :
    Keyed k := by
  cases h with
  | null | bool | number | string | array => cases hk
  | object _ hmembers =>
    exact hmembers _ (OrderedMap.mem_entries_of_find?_eq_some (m := ⟨_⟩) hk)

/-! ## Sorting -/

theorem sortItems_eq (items : List Json) : sortItems items = items.map sortKeys := by
  induction items with
  | nil => rw [sortItems, List.map_nil]
  | cons j items ih => rw [sortItems, ih, List.map_cons]

theorem sortMembers_eq (members : List (String × Json)) :
    sortMembers members = members.map fun m => (m.1, sortKeys m.2) := by
  induction members with
  | nil => rw [sortMembers, List.map_nil]
  | cons m members ih => rw [sortMembers, ih, List.map_cons]

theorem map_fst_sortMembers (members : List (String × Json)) :
    (sortMembers members).map Prod.fst = members.map Prod.fst := by
  rw [sortMembers_eq, List.map_map]
  rfl

/-- Keys are sorted by their characters. -/
theorem keys_sortKeys (j : Json) :
    j.sortKeys.keys = j.keys.mergeSort fun a b => decide (a ≤ b) := by
  cases j with
  | null | bool | number | string | array => simp [Json.sortKeys, keys]
  | object members =>
    rw [Json.sortKeys, keys, keys, ← map_fst_sortMembers members]
    exact List.map_mergeSort fun _ _ _ _ => rfl

/-- Sorting puts no key twice. -/
theorem Keyed.sortKeys {j : Json} (h : Keyed j) : Keyed j.sortKeys := by
  induction h with
  | null => exact .null
  | bool b => exact .bool b
  | number n => exact .number n
  | string s => exact .string s
  | array _ ih =>
    rw [Json.sortKeys, sortItems_eq]
    exact .array (List.forall_mem_map.2 ih)
  | object hkeys _ ih =>
    rw [Json.sortKeys]
    refine .object ?_ fun m hm => ?_
    · rwa [((List.mergeSort_perm _ _).map _).nodup_iff, map_fst_sortMembers]
    · rw [List.mem_mergeSort, sortMembers_eq] at hm
      obtain ⟨m', hm', rfl⟩ := List.mem_map.1 hm
      exact ih m' hm'

/-- Sorting changes the order of members and nothing else. -/
theorem Keyed.same_sortKeys {j : Json} (h : Keyed j) : Same j j.sortKeys := by
  induction h with
  | null | bool | number | string => exact .refl _
  | array _ ih =>
    rw [Json.sortKeys, sortItems_eq]
    exact .array (List.forall₂_map_right_iff.2 (List.forall₂_same.2 ih))
  | object _ _ ih =>
    rw [Json.sortKeys]
    refine .object (map_fst_sortMembers _).symm ?_ (List.mergeSort_perm _ _).symm
    rw [sortMembers_eq, List.map_map, List.forall₂_map_left_iff, List.forall₂_map_right_iff]
    exact List.forall₂_same.2 ih

/-- Sorting keeps the value of each key. -/
theorem Keyed.get?_sortKeys {j : Json} (h : Keyed j) (key : String) :
    j.sortKeys.get? key = (j.get? key).map Json.sortKeys := by
  cases h with
  | null | bool | number | string | array => rfl
  | object hkeys _ =>
    rw [Json.sortKeys, get?_object, get?_object, ← lookup_map_snd, ← sortMembers_eq]
    refine lookup_eq_of_reordered (List.mergeSort_perm _ _) ?_ key
    rwa [((List.mergeSort_perm _ _).map _).nodup_iff, map_fst_sortMembers]

end Json
end StudyPlan

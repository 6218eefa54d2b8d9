/-!
# Balanced words

Words over letters of which some open and some close, and the openings and closings match:
the empty word is balanced, two balanced words one behind the other are, and a balanced word
between an opening letter and the closing letter of the same pair is.  Nothing else is.

Which letters form a pair is left open, so that brackets and the events that begin and end
something can be told of alike.
-/

namespace StudyPlan

variable {α : Type} {Pair : α → α → Prop}

/-- Every opening letter of the word is closed by its partner, and properly nested. -/
inductive Balanced (Pair : α → α → Prop) : List α → Prop
  | nil : Balanced Pair []
  | append {u v : List α} : Balanced Pair u → Balanced Pair v → Balanced Pair (u ++ v)
  | enclosed {o c : α} {w : List α} :
      Pair o c → Balanced Pair w → Balanced Pair (o :: (w ++ [c]))

/-- A pair of letters without anything in between may be put in anywhere. -/
theorem Balanced.insert_pair {o c : α} (hoc : Pair o c) {x y : List α}
    (h : Balanced Pair (x ++ y)) : Balanced Pair (x ++ o :: c :: y) := by
  have hpair : Balanced Pair [o, c] := .enclosed hoc .nil
  generalize hw : x ++ y = w at h
  induction h generalizing x y with
  | nil =>
    obtain ⟨rfl, rfl⟩ := List.append_eq_nil_iff.1 hw
    exact hpair
  | @append u v hu hv ihu ihv =>
    -- the place lies in one of the two words
    rcases List.append_eq_append_iff.1 hw with ⟨z, rfl, rfl⟩ | ⟨z, rfl, rfl⟩
    · have h := (ihu rfl).append hv
      rwa [List.append_assoc] at h
    · have h := hu.append (ihv rfl)
      rwa [← List.append_assoc] at h
  | @enclosed a b w hab hw' ih =>
    rcases x with _ | ⟨a', x⟩
    · obtain rfl : y = a :: (w ++ [b]) := hw
      exact hpair.append (hw'.enclosed hab)
    · obtain ⟨rfl, htail⟩ := List.cons.inj hw
      rcases List.eq_nil_or_concat y with rfl | ⟨y, b', rfl⟩
      · obtain rfl : x = w ++ [b] := (List.append_nil x).symm.trans htail
        exact (hw'.enclosed hab).append hpair
      · have htail : (x ++ y) ++ [b'] = w ++ [b] := by simpa using htail
        obtain ⟨hinner, hb⟩ := List.append_inj' htail rfl
        obtain rfl := List.singleton_inj.1 hb
        simpa using (ih hinner).enclosed hab

end StudyPlan

/-
Trees whose nodes all hang to the right, and probes that never answer a negative number: a search
goes down the spine and misses nothing, although the probe does not split the list.
-/
import BeehiveIm.Lib.Search

namespace BeehiveIm.Lib

variable {τ α : Type}

/-- Every node is on the way down to the right. -/
def Spine : PTree τ α → Prop
  | .nil => True
  | .node _ _ _ l r => l = .nil ∧ Spine r

/-- The probe never sends a search to the left. -/
def OneSided (ck : α → Int) (l : List α) : Prop := ∀ e ∈ l, 0 ≤ ck e

section Spine

variable {ck : α → Int} {g : α → α} {d : α}

theorem spine_of_length : ∀ {t : PTree τ α}, t.toList.length ≤ 1 → Spine t
  | .nil, _ => trivial
  | .node _ _ _ .nil .nil, _ => ⟨rfl, trivial⟩
  | .node _ _ _ .nil (.node ..), h => by simp at h
  | .node _ _ _ (.node ..) _, h => by simp at h; omega

/-- The first element of a spine is at its root. -/
theorem Spine.root {l : List α} : ∀ {t : PTree τ α}, Spine t → t.toList = d :: l → ∃ a k r, t = .node a k d .nil r
  | .nil, _, h => by cases h
  | .node a k e l r, ⟨hl, _⟩, h => by
    subst hl
    obtain ⟨rfl, -⟩ := List.cons.inj h
    exact ⟨a, k, r, rfl⟩

theorem Spine.alterBy : ∀ {t : PTree τ α}, Spine t → Spine (alterBy ck g t)
  | .nil, _ => trivial
  | .node a k e l r, ⟨hl, hr⟩ => by
    subst hl
    rw [Lib.alterBy]
    split
    · exact ⟨rfl, hr⟩
    · split
      · exact ⟨rfl, hr⟩
      · exact ⟨rfl, hr.alterBy⟩

theorem Spine.meetBy : ∀ {t : PTree τ α}, Spine t → OneSided ck t.toList → meetBy ck t = findBy ck t.toList
  | .nil, _, _ => rfl
  | .node a k e l r, ⟨hl, hr⟩, ho => by
    subst hl
    have he := ho e (by simp)
    rw [Lib.meetBy, PTree.toList_node, PTree.toList_nil, List.nil_append, findBy]
    by_cases h0 : ck e = 0
    · rw [if_pos h0, List.find?_cons_of_pos (by simpa using h0)]
    · rw [if_neg h0, if_neg (by omega), hr.meetBy fun x hx => ho x (by simp [hx]),
        List.find?_cons_of_neg (by simpa using h0), findBy]

theorem OneSided.placeBy : ∀ {t : PTree τ α}, OneSided ck t.toList → placeBy ck d t = t.toList ++ [d]
  | .nil, _ => rfl
  | .node a k e l r, ho => by
    have he := ho e (by simp)
    rw [Lib.placeBy, if_neg (by omega), OneSided.placeBy fun x hx => ho x (by simp [hx]), PTree.toList_node,
      List.append_assoc]
    rfl

/-- A search that goes to the right all the way stops at the last element. -/
theorem meetBy_last : ∀ {t : PTree τ α} {l : List α}, t.toList = l ++ [d] → (∀ x ∈ l, 0 < ck x) → ck d = 0 →
    Lib.meetBy ck t = some d
  | .nil, _, h, _, _ => by simp at h
  | .node a k e l' r, l, h, hpos, h0 => by
    rw [PTree.toList_node] at h
    rw [Lib.meetBy]
    rcases List.eq_nil_or_concat r.toList with hnil | ⟨init, x, hr⟩
    · rw [hnil] at h
      obtain ⟨-, hed⟩ := List.append_inj' h rfl
      rw [(List.cons.inj hed).1, if_pos h0]
    · rw [List.concat_eq_append] at hr
      rw [hr, ← List.cons_append, ← List.append_assoc] at h
      obtain ⟨hl, hx⟩ := List.append_inj' h rfl
      cases hx
      have he : 0 < ck e := hpos e (by simp [← hl])
      rw [if_neg he.ne', if_neg he.le.not_gt]
      exact meetBy_last hr (fun y hy => hpos y (by simp [← hl, hy])) h0

end Spine

/-! ## Probes that do split -/

section Splits

variable {ck : α → Int} {l : List α} {t t' : PTree τ α} {d : α}

/-- Of two elements such a probe finds the last at most, and splits the list, or it finds the first
and splits the list when it is turned round. -/
theorem OneSided.splits (ho : OneSided ck l) (hu : AtMostOne ck l) (hlen : l.length ≤ 2) :
    Splits ck l ∨ ∃ e A, l = e :: A ∧ ck e = 0 ∧ Splits (fun x => -ck x) l := by
  match l, hlen with
  | [], _ => exact .inl .nil
  | [e], _ => exact .inl (List.pairwise_singleton ..)
  | [e, d], _ =>
    have he := ho e (by simp)
    have hd := ho d (by simp)
    by_cases h0 : ck e = 0
    · have : ck d ≠ 0 := (List.pairwise_cons.1 hu).1 d (by simp) h0
      exact .inr ⟨e, [d], rfl, h0, by simp [Splits]; omega⟩
    · exact .inl (by simp [Splits]; omega)

theorem findBy_neg (ck : α → Int) : findBy (fun e => -ck e) = findBy ck := by
  funext l
  exact congrArg (List.find? · l) (funext fun x => by rw [Bool.eq_iff_iff]; simp)

theorem eraseBy_neg (ck : α → Int) : eraseBy (fun e => -ck e) = eraseBy ck := by
  funext l
  exact congrArg (List.filter · l) (funext fun x => by rw [Bool.eq_iff_iff]; simp)

/-- What is left of two elements is a spine. -/
theorem spine_eraseBy (hlen : t.toList.length ≤ 2) (hx : findBy ck t.toList = some d)
    (ht : t'.toList = eraseBy ck t.toList) : Spine t' := by
  obtain ⟨hd, hd0⟩ := findBy_mem hx
  have : (eraseBy ck t.toList).length < t.toList.length :=
    List.length_filter_lt_length_iff_exists.2 ⟨d, hd, by simp [hd0]⟩
  exact spine_of_length (by rw [ht]; omega)

end Splits

end BeehiveIm.Lib

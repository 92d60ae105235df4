/-
Sorted sets: each member has a score, members stand in the order of their scores and, where these
are equal, of their texts. Long ones are read in pages.
-/
import Mathlib.Data.List.Nodup
import Mathlib.Data.List.Perm.Basic

namespace BeehiveIm.Lib

/-- How a member is written. -/
class Text (α : Type) where
  text : α → List Char

instance (w : Nat) : Text (BitVec w) := ⟨fun n => Nat.toDigits 10 n.toNat⟩

/-- The members in order, each with its score. -/
structure ZSet (α : Type) where
  list : List (α × Int)
  nodup : (list.map Prod.fst).Nodup

namespace ZSet

variable {α : Type}

instance : EmptyCollection (ZSet α) := ⟨⟨[], List.nodup_nil⟩⟩

instance : Membership α (ZSet α) := ⟨fun z a => a ∈ z.list.map Prod.fst⟩

instance [DecidableEq α] (a : α) (z : ZSet α) : Decidable (a ∈ z) :=
  inferInstanceAs (Decidable (a ∈ z.list.map Prod.fst))

theorem mem_def {a : α} {z : ZSet α} : a ∈ z ↔ a ∈ z.list.map Prod.fst := Iff.rfl

theorem mem_iff {a : α} {z : ZSet α} : a ∈ z ↔ ∃ s, (a, s) ∈ z.list := by simp [mem_def]

@[simp] theorem notMem_empty (a : α) : a ∉ (∅ : ZSet α) := List.not_mem_nil

/-- `ZCARD` -/
def card (z : ZSet α) : Nat := z.list.length

/-- `ZSCORE` -/
def score [DecidableEq α] (z : ZSet α) (a : α) : Option Int := (z.list.find? fun e => e.1 = a).map Prod.snd

/-- `ZREM` -/
def rem [DecidableEq α] (z : ZSet α) (a : α) : ZSet α where
  list := z.list.filter fun e => e.1 ≠ a
  nodup := z.nodup.sublist (List.filter_sublist.map _)

def before [Text α] (a b : α × Int) : Bool :=
  a.2 < b.2 ∨ a.2 = b.2 ∧ Text.text a.1 < Text.text b.1

/-- The list with `e` at its place. -/
def place [Text α] (e : α × Int) : List (α × Int) → List (α × Int)
  | [] => [e]
  | x :: xs => if before e x then e :: x :: xs else x :: place e xs

theorem place_perm [Text α] (e : α × Int) : ∀ l : List (α × Int), (place e l).Perm (e :: l)
  | [] => .refl _
  | x :: xs => by
    rw [place]
    split
    · rfl
    · exact ((place_perm e xs).cons x).trans (.swap e x xs)

variable [DecidableEq α]

theorem notMem_rem (z : ZSet α) (a : α) : a ∉ z.rem a := by simp [mem_def, rem]

/-- `ZADD` -/
def add [Text α] (z : ZSet α) (score : Int) (a : α) : ZSet α where
  list := place (a, score) (z.rem a).list
  nodup := by
    rw [((place_perm _ _).map Prod.fst).nodup_iff, List.map_cons, List.nodup_cons]
    exact ⟨z.notMem_rem a, (z.rem a).nodup⟩

/-- `ZINCRBY` -/
def incrBy [Text α] (z : ZSet α) (d : Int) (a : α) : ZSet α := z.add ((z.score a).getD 0 + d) a

/-- `ZRANGEBYSCORE`; `none` is infinite. -/
def rangeByScore (z : ZSet α) (min max : Option Int) : List (α × Int) :=
  z.list.filter fun e => (∀ lo ∈ min, lo ≤ e.2) ∧ ∀ hi ∈ max, e.2 ≤ hi

section

variable {z : ZSet α} {a b : α} {s : Int}

@[simp] theorem mem_rem : b ∈ z.rem a ↔ b ∈ z ∧ b ≠ a := by
  simp only [mem_iff, rem, List.mem_filter, decide_eq_true_eq]
  exact ⟨fun ⟨s, hs, hne⟩ => ⟨⟨s, hs⟩, hne⟩, fun ⟨⟨s, hs⟩, hne⟩ => ⟨s, hs, hne⟩⟩

@[simp] theorem mem_add [Text α] : b ∈ z.add s a ↔ b = a ∨ b ∈ z := by
  have hmem : b ∈ z.add s a ↔ b ∈ a :: (z.rem a).list.map Prod.fst := by
    rw [← List.map_cons (f := Prod.fst) (a := (a, s)), ← ((place_perm (a, s) (z.rem a).list).map Prod.fst).mem_iff]
    rfl
  rw [hmem, List.mem_cons]
  by_cases hba : b = a
  · simp [hba]
  · exact or_congr_right (mem_rem.trans (and_iff_left hba))

theorem score_eq_some : z.score a = some s ↔ (a, s) ∈ z.list := by
  rw [score, Option.map_eq_some_iff]
  constructor
  · rintro ⟨⟨a', s'⟩, hf, rfl⟩
    obtain rfl : a' = a := by simpa using List.find?_some hf
    exact List.mem_of_find?_eq_some hf
  · intro h
    cases hf : z.list.find? (fun e => e.1 = a) with
    | none => exact absurd (List.find?_eq_none.1 hf _ h) (by simp)
    | some e =>
      have he : e.1 = a := by simpa using List.find?_some hf
      exact ⟨e, rfl, congrArg Prod.snd (List.inj_on_of_nodup_map z.nodup (List.mem_of_find?_eq_some hf) h he)⟩

theorem score_eq_none : z.score a = none ↔ a ∉ z := by
  rw [mem_iff, ← not_iff_not, not_not, ← ne_eq, Option.ne_none_iff_exists']
  exact exists_congr fun s => score_eq_some

theorem score_add [Text α] : (z.add s a).score b = if b = a then some s else z.score b := by
  refine Option.ext fun t => ?_
  have hmem : (b, t) ∈ (z.add s a).list ↔ (b, t) = (a, s) ∨ (b, t) ∈ z.list ∧ b ≠ a := by
    rw [show (z.add s a).list = place (a, s) (z.rem a).list from rfl, (place_perm _ _).mem_iff, List.mem_cons]
    simp [rem]
  rw [score_eq_some, hmem]
  split
  · rename_i hba
    simp [hba, eq_comm]
  · rename_i hba
    simp [hba, score_eq_some]

omit [DecidableEq α] in
/-- A range without bounds has every member. -/
theorem mem_range_all : a ∈ (z.rangeByScore none none).map Prod.fst ↔ a ∈ z := by
  rw [show z.rangeByScore none none = z.list from List.filter_eq_self.2 fun e _ => by simp]
  rfl

omit [DecidableEq α] in
theorem exists_range_all (P : α → Prop) : (∃ e ∈ z.rangeByScore none none, P e.1) ↔ ∃ a ∈ z, P a := by
  constructor
  · rintro ⟨e, he, hP⟩
    exact ⟨e.1, mem_range_all.1 (List.mem_map_of_mem he), hP⟩
  · rintro ⟨a, ha, hP⟩
    obtain ⟨e, he, rfl⟩ := List.mem_map.1 (mem_range_all.2 ha)
    exact ⟨e, he, hP⟩

omit [DecidableEq α] in
theorem length_range_le (min max : Option Int) : (z.rangeByScore min max).length ≤ z.card :=
  List.filter_sublist.length_le

theorem length_range_rem_le (a : α) (min max : Option Int) :
    ((z.rem a).rangeByScore min max).length ≤ (z.rangeByScore min max).length :=
  (List.filter_sublist.filter _).length_le

end

end ZSet

/-! ## Pages -/

variable {α σ τ : Type}

/-- `LIMIT off num` -/
def limit (off num : Nat) (l : List α) : List α := (l.drop off).take num

/-- A loop that reads pages of `bat` entries until one is short; `none` when it does not end in
time. -/
def paged (bat : Nat) (read : σ → Nat → List α) (body : σ → List α → σ) : Nat → Nat → σ → Option σ
  | 0, _, _ => none
  | fuel + 1, off, s =>
    let page := read s off
    if page.length < bat then some (body s page) else paged bat read body fuel (off + bat) (body s page)

section

variable {bat : Nat} {read : σ → Nat → List α} {body : σ → List α → σ} {read' : τ → Nat → List α}
  {body' : τ → List α → τ}

/-- Pages of a range that does not grow come to an end. -/
theorem paged_total (bat : Nat) {body : σ → List α → σ} {read : σ → Nat → List α} (hbat : 0 < bat) (src : σ → List α)
    (hread : ∀ s off, read s off = limit off bat (src s))
    (hbody : ∀ s page, (src (body s page)).length ≤ (src s).length) :
    ∀ (fuel off : Nat) (s : σ), (src s).length ≤ fuel + off → ∃ s', paged bat read body (fuel + 1) off s = some s'
  | 0, off, s, h => by
    have hshort : (read s off).length < bat := by
      rw [hread, limit, List.length_take, List.length_drop]
      omega
    exact ⟨_, if_pos hshort⟩
  | fuel + 1, off, s, h => by
    rw [paged]
    by_cases hshort : (read s off).length < bat
    · exact ⟨_, if_pos hshort⟩
    · obtain ⟨s', hs'⟩ := paged_total bat hbat src hread hbody fuel (off + bat) (body s (read s off))
        (by have := hbody s (read s off); omega)
      exact ⟨s', by rw [if_neg hshort]; exact hs'⟩

/-- Two loops that read the same pages and stay related end related. -/
theorem paged_rel (R : σ → τ → Prop) (hread : ∀ s t off, R s t → read s off = read' t off)
    (hbody : ∀ s t page, R s t → R (body s page) (body' t page)) :
    ∀ (fuel off : Nat) (s : σ) (t : τ) (s' : σ), R s t → paged bat read body fuel off s = some s' →
      ∃ t', paged bat read' body' fuel off t = some t' ∧ R s' t'
  | 0, _, _, _, _, _, h => by cases h
  | fuel + 1, off, s, t, s', hR, h => by
    rw [paged] at h
    by_cases hshort : (read s off).length < bat
    · rw [if_pos hshort, Option.some.injEq] at h
      refine ⟨body' t (read' t off), if_pos (hread s t off hR ▸ hshort), ?_⟩
      rw [← h, hread s t off hR]
      exact hbody s t _ hR
    · rw [if_neg hshort] at h
      obtain ⟨t', ht', hR'⟩ := paged_rel R hread hbody fuel (off + bat) _ (body' t (read' t off)) s'
        (by rw [hread s t off hR]; exact hbody s t _ hR) h
      exact ⟨t', by rw [paged, if_neg (hread s t off hR ▸ hshort)]; exact ht', hR'⟩

/-- An invariant of the body, which may speak of the offset, is one of the loop. -/
theorem paged_keeps_from (Inv : Nat → σ → Prop) (hbody : ∀ s off, Inv off s → Inv (off + bat) (body s (read s off))) :
    ∀ (fuel off : Nat) (s s' : σ), Inv off s → paged bat read body fuel off s = some s' → ∃ off', Inv off' s'
  | 0, _, _, _, _, h => by cases h
  | fuel + 1, off, s, s', hs, h => by
    rw [paged] at h
    split at h
    · rw [Option.some.injEq] at h
      exact ⟨off + bat, h ▸ hbody s off hs⟩
    · exact paged_keeps_from Inv hbody fuel _ _ s' (hbody s off hs) h

theorem paged_keeps (Inv : σ → Prop) (hbody : ∀ s off, Inv s → Inv (body s (read s off))) (fuel off : Nat) (s s' : σ)
    (hs : Inv s) (h : paged bat read body fuel off s = some s') : Inv s' :=
  (paged_keeps_from (fun _ => Inv) hbody fuel off s s' hs h).elim fun _ hs' => hs'

/-- A loop over a list that stays as it is visits the whole of it. -/
theorem paged_foldl (hbat : 0 < bat) (f : σ → α → σ) (l : List α) :
    ∀ (fuel off : Nat) (s : σ), l.length ≤ fuel + off →
      paged bat (fun _ off => limit off bat l) (List.foldl f) (fuel + 1) off s = some ((l.drop off).foldl f s)
  | 0, off, s, h => by
    have hnil : l.drop off = [] := List.drop_eq_nil_of_le (by omega)
    have hpage : limit off bat l = [] := by rw [limit, hnil, List.take_nil]
    rw [paged, hpage, hnil]
    exact if_pos hbat
  | fuel + 1, off, s, h => by
    rw [paged]
    by_cases hshort : (limit off bat l).length < bat
    · have hall : limit off bat l = l.drop off := by
        rw [limit, List.length_take] at hshort
        exact List.take_of_length_le (by omega)
      rw [if_pos hshort, hall]
    · rw [if_neg hshort, paged_foldl hbat f l fuel (off + bat) _ (by omega), limit, ← List.foldl_append,
        ← List.drop_drop, List.take_append_drop]

end

end BeehiveIm.Lib

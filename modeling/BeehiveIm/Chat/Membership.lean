/-
What a chat table is for: which sessions there are, and in which group of which rooms each is. The
tables of both sides are to agree with this.
-/
import Mathlib.Logic.Function.Basic

namespace BeehiveIm.Chat

/-- The rooms of each session there is, with its group in each. -/
abbrev Membership (κ ρ γ : Type) := κ → Option (ρ → Option γ)

namespace Membership

variable {κ ρ γ : Type} {m : Membership κ ρ γ} {key : κ} {rid : ρ} {gid : γ}

/-- The group in which a session is in a room. -/
def lists (m : Membership κ ρ γ) (key : κ) (rid : ρ) : Option γ := (m key).bind (· rid)

variable [DecidableEq κ] [DecidableEq ρ]

/-- The first join of a room counts; a session that does not exist is made. -/
def join (m : Membership κ ρ γ) (key : κ) (rid : ρ) (gid : γ) : Membership κ ρ γ :=
  Function.update m key (some (Function.update ((m key).getD fun _ => none) rid (some ((m.lists key rid).getD gid))))

def quit (m : Membership κ ρ γ) (key : κ) (rid : ρ) : Membership κ ρ γ :=
  Function.update m key ((m key).map fun rooms => Function.update rooms rid none)

def del (m : Membership κ ρ γ) (key : κ) : Membership κ ρ γ := Function.update m key none

/-- A session without rooms, if it does not exist. -/
def enter (m : Membership κ ρ γ) (key : κ) : Membership κ ρ γ :=
  Function.update m key (some ((m key).getD fun _ => none))

theorem lists_join (key' : κ) (rid' : ρ) : (m.join key rid gid).lists key' rid' =
    if key' = key ∧ rid' = rid then some ((m.lists key rid).getD gid) else m.lists key' rid' := by
  rcases eq_or_ne key' key with rfl | hk
  · rcases eq_or_ne rid' rid with rfl | hr
    · simp [join, lists]
    · cases h : m key' <;> simp [join, lists, hr, h]
  · simp [join, lists, hk]

theorem join_of_lists (h : m.lists key rid = some gid) (gid' : γ) : m.join key rid gid' = m := by
  obtain ⟨rooms, hm, hr⟩ := Option.bind_eq_some_iff.mp h
  rw [join, h, hm, Option.getD_some, Option.getD_some, ← hr, Function.update_eq_self, ← hm, Function.update_eq_self]

theorem quit_of_not_lists (h : m.lists key rid = none) : m.quit key rid = m := by
  unfold quit
  rw [Function.update_eq_self_iff]
  cases hm : m key with
  | none => rfl
  | some rooms =>
    have hr : rooms rid = none := by simpa [lists, hm] using h
    rw [Option.map_some, ← hr, Function.update_eq_self]

omit [DecidableEq ρ] in
theorem del_of_none (h : m key = none) : m.del key = m := by rw [del, ← h, Function.update_eq_self]

theorem lists_quit (key' : κ) (rid' : ρ) : (m.quit key rid).lists key' rid' =
    if key' = key ∧ rid' = rid then none else m.lists key' rid' := by
  rcases eq_or_ne key' key with rfl | hk
  · rcases eq_or_ne rid' rid with rfl | hr
    · cases h : m key' <;> simp [quit, lists, h]
    · cases h : m key' <;> simp [quit, lists, hr, h]
  · simp [quit, lists, hk]

omit [DecidableEq ρ] in
theorem lists_del (key' : κ) (rid' : ρ) : (m.del key).lists key' rid' =
    if key' = key then none else m.lists key' rid' := by
  rcases eq_or_ne key' key with rfl | hk
  · simp [del, lists]
  · simp [del, lists, hk]

omit [DecidableEq ρ] in
theorem lists_enter (key' : κ) (rid' : ρ) : (m.enter key).lists key' rid' = m.lists key' rid' := by
  rcases eq_or_ne key' key with rfl | hk
  · cases h : m key' <;> simp [enter, lists, h]
  · simp [enter, lists, hk]

/-- A join that was not refused adds one pair. -/
theorem lists_join_iff {key' : κ} {rid' : ρ} {gid' : γ} (h : (m.join key rid gid).lists key rid = some gid) :
    (m.join key rid gid).lists key' rid' = some gid' ↔
      m.lists key' rid' = some gid' ∨ rid' = rid ∧ gid' = gid ∧ key' = key := by
  rw [lists_join, if_pos ⟨rfl, rfl⟩, Option.some.injEq] at h
  rw [lists_join]
  by_cases hkr : key' = key ∧ rid' = rid
  · obtain ⟨rfl, rfl⟩ := hkr
    rw [if_pos ⟨rfl, rfl⟩, h]
    cases hl : m.lists key' rid' with
    | none => simp [eq_comm]
    | some g =>
      obtain rfl : g = gid := by simpa [hl] using h
      simp [eq_comm]
  · rw [if_neg hkr]
    exact ⟨.inl, fun hor => hor.resolve_right fun heq => hkr ⟨heq.2.2, heq.1⟩⟩

/-- To quit takes one pair away. -/
theorem lists_quit_iff {key' : κ} {rid' : ρ} {gid' : γ} (h : m.lists key rid = some gid) :
    (m.quit key rid).lists key' rid' = some gid' ↔
      m.lists key' rid' = some gid' ∧ ¬(rid' = rid ∧ gid' = gid ∧ key' = key) := by
  rw [lists_quit]
  by_cases hkr : key' = key ∧ rid' = rid
  · obtain ⟨rfl, rfl⟩ := hkr
    rw [if_pos ⟨rfl, rfl⟩, h]
    simp [eq_comm]
  · rw [if_neg hkr]
    exact ⟨fun hl => ⟨hl, fun heq => hkr ⟨heq.2.2, heq.1⟩⟩, And.left⟩

/-! ## Which sessions there are -/

theorem isSome_join (key' : κ) (h : (m key').isSome) : (m.join key rid gid key').isSome := by
  rcases eq_or_ne key' key with rfl | hk
  · simp [join]
  · simpa [join, hk] using h

theorem isSome_quit (key' : κ) (h : (m key').isSome) : (m.quit key rid key').isSome := by
  rcases eq_or_ne key' key with rfl | hk
  · simpa [quit] using h
  · simpa [quit, hk] using h

omit [DecidableEq ρ] in
theorem isSome_enter (key' : κ) (h : (m key').isSome) : (m.enter key key').isSome := by
  rcases eq_or_ne key' key with rfl | hk
  · simp [enter]
  · simpa [enter, hk] using h

omit [DecidableEq ρ] in
theorem isSome_del {key' : κ} (hk : key' ≠ key) (h : (m key').isSome) : (m.del key key').isSome := by
  simpa [del, hk] using h

end Membership

end BeehiveIm.Chat

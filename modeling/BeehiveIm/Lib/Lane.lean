/-
A lane that is worked through by several parties: each takes the next positions off its head, works
on them one by one, and gives them back at its tail in the order they were taken. Positions only go
up. A lane carries what keeps the parties apart: their segments do not overlap, and they cover what
lies between tail and head.
-/
import Mathlib.Data.Finset.Card
import Mathlib.Data.Finset.Range
import Mathlib.Logic.Function.Basic

namespace BeehiveIm.Lib

/-- The positions a party has taken, from `start` on; it is through with the first `count`. -/
structure Seg where
  start : Nat
  len : Nat
  count : Nat
  deriving DecidableEq

structure Lane (τ : Type) where
  head : Nat
  tail : Nat
  seg : τ → Option Seg
  /-- The positions somebody is through with. -/
  done : Finset Nat
  tail_le : tail ≤ head
  len_pos : ∀ {t s}, seg t = some s → 0 < s.len
  count_le : ∀ {t s}, seg t = some s → s.count ≤ s.len
  within : ∀ {t s}, seg t = some s → tail ≤ s.start ∧ s.start + s.len ≤ head
  apart : ∀ {t t' s s'}, t ≠ t' → seg t = some s → seg t' = some s' →
    s.start + s.len ≤ s'.start ∨ s'.start + s'.len ≤ s.start
  cover : ∀ {p}, tail ≤ p → p < head → ∃ t s, seg t = some s ∧ s.start ≤ p ∧ p < s.start + s.len
  mem_done : ∀ p, p ∈ done ↔ p < tail ∨ ∃ t s, seg t = some s ∧ s.start ≤ p ∧ p < s.start + s.count

namespace Lane

variable {τ : Type} {L : Lane τ} {t t' : τ} {s s' : Seg}

def empty (τ : Type) : Lane τ where
  head := 0
  tail := 0
  seg _ := none
  done := ∅
  tail_le := le_rfl
  len_pos h := by simp at h
  count_le h := by simp at h
  within h := by simp at h
  apart _ h := by simp at h
  cover _ h := by omega
  mem_done p := by simp

theorem lt_head_of_done {p : Nat} (h : p ∈ L.done) : p < L.head := by
  rcases (L.mem_done p).1 h with h | ⟨t, s, hs, -, h⟩
  · exact h.trans_le L.tail_le
  · have := (L.within hs).2
    have := L.count_le hs
    omega

theorem done_of_lt_tail {p : Nat} (h : p < L.tail) : p ∈ L.done := (L.mem_done p).2 (.inl h)

theorem card_done_le : L.done.card ≤ L.head := by
  have : L.done ⊆ Finset.range L.head := fun p hp => Finset.mem_range.2 (lt_head_of_done hp)
  simpa using Finset.card_le_card this

theorem tail_le_card_done : L.tail ≤ L.done.card := by
  have : Finset.range L.tail ⊆ L.done := fun p hp => done_of_lt_tail (Finset.mem_range.1 hp)
  simpa using Finset.card_le_card this

/-- Nobody has positions: the lane is worked through. -/
theorem tail_eq_head (h : ∀ t, L.seg t = none) : L.tail = L.head := by
  by_contra hne
  obtain ⟨t, s, hs, -⟩ := L.cover le_rfl (Nat.lt_of_le_of_ne L.tail_le hne)
  rw [h t] at hs
  exact absurd hs (by simp)

/-- Only one segment starts at the tail. -/
theorem eq_of_start_eq_tail (hs : L.seg t = some s) (hs' : L.seg t' = some s') (h : s.start = L.tail)
    (h' : s'.start = L.tail) : t = t' := by
  by_contra hne
  have := L.apart hne hs hs'
  have := L.len_pos hs
  have := L.len_pos hs'
  omega

/-- The position a party works on next is not done. -/
theorem next_not_done (hs : L.seg t = some s) (hcount : s.count < s.len) : s.start + s.count ∉ L.done := by
  intro h
  rcases (L.mem_done _).1 h with h | ⟨t', s', hs', hle, hlt⟩
  · have := (L.within hs).1
    omega
  · by_cases hne : t = t'
    · subst hne
      rw [hs, Option.some.injEq] at hs'
      subst hs'
      omega
    · have := L.apart hne hs hs'
      have := L.count_le hs'
      omega

variable [DecidableEq τ]

theorem update_seg {f : τ → Option Seg} {v : Option Seg} (h : Function.update f t v t' = some s) :
    (t' = t ∧ v = some s) ∨ (t' ≠ t ∧ f t' = some s) := by
  by_cases ht : t' = t
  · subst ht
    rw [Function.update_self] at h
    exact .inl ⟨rfl, h⟩
  · rw [Function.update_of_ne ht] at h
    exact .inr ⟨ht, h⟩

/-- `t` takes the next `len` positions. -/
def take (L : Lane τ) (t : τ) (len : Nat) (hlen : 0 < len) (ht : L.seg t = none) : Lane τ where
  head := L.head + len
  tail := L.tail
  seg := Function.update L.seg t (some ⟨L.head, len, 0⟩)
  done := L.done
  tail_le := L.tail_le.trans (Nat.le_add_right _ _)
  len_pos h := by
    rcases update_seg h with ⟨-, ⟨⟩⟩ | ⟨-, h⟩
    · exact hlen
    · exact L.len_pos h
  count_le h := by
    rcases update_seg h with ⟨-, ⟨⟩⟩ | ⟨-, h⟩
    · exact Nat.zero_le _
    · exact L.count_le h
  within h := by
    rcases update_seg h with ⟨-, ⟨⟩⟩ | ⟨-, h⟩
    · exact ⟨L.tail_le, le_rfl⟩
    · have := L.within h
      omega
  apart hne h h' := by
    rcases update_seg h with ⟨rfl, ⟨⟩⟩ | ⟨-, h₁⟩ <;> rcases update_seg h' with ⟨rfl, ⟨⟩⟩ | ⟨-, h₂⟩
    · exact absurd rfl hne
    · exact .inr (L.within h₂).2
    · exact .inl (L.within h₁).2
    · exact L.apart hne h₁ h₂
  cover {p} htail hhead := by
    by_cases hp : p < L.head
    · obtain ⟨u, s, hs, hlo, hhi⟩ := L.cover htail hp
      have hu : u ≠ t := by rintro rfl; rw [ht] at hs; simp at hs
      exact ⟨u, s, by rw [Function.update_of_ne hu]; exact hs, hlo, hhi⟩
    · exact ⟨t, _, Function.update_self .., Nat.le_of_not_lt hp, hhead⟩
  mem_done p := by
    rw [L.mem_done p]
    refine or_congr_right ⟨?_, ?_⟩
    · rintro ⟨u, s, hs, h⟩
      have hu : u ≠ t := by rintro rfl; rw [ht] at hs; simp at hs
      exact ⟨u, s, by rw [Function.update_of_ne hu]; exact hs, h⟩
    · rintro ⟨u, s, hs, hlo, hhi⟩
      rcases update_seg hs with ⟨-, ⟨⟩⟩ | ⟨-, hs⟩
      · exact absurd hhi (Nat.not_lt_of_le hlo)
      · exact ⟨u, s, hs, hlo, hhi⟩

/-- `t` is through with one more of its positions. -/
def work (L : Lane τ) (t : τ) (s : Seg) (hs : L.seg t = some s) (hcount : s.count < s.len) : Lane τ where
  head := L.head
  tail := L.tail
  seg := Function.update L.seg t (some ⟨s.start, s.len, s.count + 1⟩)
  done := insert (s.start + s.count) L.done
  tail_le := L.tail_le
  len_pos h := by
    rcases update_seg h with ⟨-, ⟨⟩⟩ | ⟨-, h⟩
    · exact (Nat.zero_le _).trans_lt hcount
    · exact L.len_pos h
  count_le h := by
    rcases update_seg h with ⟨-, ⟨⟩⟩ | ⟨-, h⟩
    · exact hcount
    · exact L.count_le h
  within h := by
    have hin := L.within hs
    rcases update_seg h with ⟨-, ⟨⟩⟩ | ⟨-, h⟩
    · exact hin
    · exact L.within h
  apart hne h h' := by
    rcases update_seg h with ⟨rfl, ⟨⟩⟩ | ⟨-, h₁⟩ <;> rcases update_seg h' with ⟨rfl, ⟨⟩⟩ | ⟨-, h₂⟩
    · exact absurd rfl hne
    · have := L.apart hne hs h₂
      exact this
    · have := L.apart hne h₁ hs
      exact this
    · exact L.apart hne h₁ h₂
  cover htail hhead := by
    obtain ⟨u, r, hr, hlo, hhi⟩ := L.cover htail hhead
    by_cases hu : u = t
    · subst hu
      obtain rfl : s = r := by rw [hs] at hr; exact Option.some.inj hr
      exact ⟨u, _, Function.update_self .., hlo, hhi⟩
    · exact ⟨u, r, by rw [Function.update_of_ne hu]; exact hr, hlo, hhi⟩
  mem_done p := by
    rw [Finset.mem_insert, L.mem_done p]
    constructor
    · rintro (rfl | h | ⟨u, r, hr, hlo, hhi⟩)
      · exact .inr ⟨t, _, Function.update_self .., Nat.le_add_right _ _, Nat.lt_succ_self _⟩
      · exact .inl h
      · by_cases hu : u = t
        · subst hu
          obtain rfl : s = r := by rw [hs] at hr; exact Option.some.inj hr
          exact .inr ⟨u, _, Function.update_self .., hlo, hhi.trans (Nat.lt_succ_self _)⟩
        · exact .inr ⟨u, r, by rw [Function.update_of_ne hu]; exact hr, hlo, hhi⟩
    · rintro (h | ⟨u, r, hr, hlo, hhi⟩)
      · exact .inr (.inl h)
      · rcases update_seg hr with ⟨-, ⟨⟩⟩ | ⟨-, hr⟩
        · by_cases hp : p = s.start + s.count
          · exact .inl hp
          · exact .inr (.inr ⟨t, s, hs, hlo, Nat.lt_of_le_of_ne (Nat.le_of_lt_succ hhi) hp⟩)
        · exact .inr (.inr ⟨u, r, hr, hlo, hhi⟩)

theorem card_work (hs : L.seg t = some s) (hcount : s.count < s.len) :
    (L.work t s hs hcount).done.card = L.done.card + 1 :=
  Finset.card_insert_of_notMem (next_not_done hs hcount)

/-- `t` gives its positions back; its turn has come when they start at the tail. -/
def give (L : Lane τ) (t : τ) (s : Seg) (hs : L.seg t = some s) (hcount : s.count = s.len)
    (hstart : s.start = L.tail) : Lane τ where
  head := L.head
  tail := L.tail + s.len
  seg := Function.update L.seg t none
  done := L.done
  tail_le := by have := (L.within hs).2; omega
  len_pos h := by
    rcases update_seg h with ⟨-, ⟨⟩⟩ | ⟨-, h⟩
    exact L.len_pos h
  count_le h := by
    rcases update_seg h with ⟨-, ⟨⟩⟩ | ⟨-, h⟩
    exact L.count_le h
  within h := by
    rcases update_seg h with ⟨-, ⟨⟩⟩ | ⟨hu, h⟩
    have := L.within h
    have := L.apart (Ne.symm hu) hs h
    have := L.len_pos h
    omega
  apart hne h h' := by
    rcases update_seg h with ⟨-, ⟨⟩⟩ | ⟨-, h⟩
    rcases update_seg h' with ⟨-, ⟨⟩⟩ | ⟨-, h'⟩
    exact L.apart hne h h'
  cover htail hhead := by
    obtain ⟨u, r, hr, hlo, hhi⟩ := L.cover (by omega) hhead
    have hu : u ≠ t := by
      rintro rfl
      obtain rfl : s = r := by rw [hs] at hr; exact Option.some.inj hr
      omega
    exact ⟨u, r, by rw [Function.update_of_ne hu]; exact hr, hlo, hhi⟩
  mem_done p := by
    rw [L.mem_done p]
    constructor
    · rintro (h | ⟨u, r, hr, hlo, hhi⟩)
      · exact .inl (by omega)
      · by_cases hu : u = t
        · subst hu
          obtain rfl : s = r := by rw [hs] at hr; exact Option.some.inj hr
          exact .inl (by omega)
        · exact .inr ⟨u, r, by rw [Function.update_of_ne hu]; exact hr, hlo, hhi⟩
    · rintro (h | ⟨u, r, hr, h⟩)
      · by_cases hp : p < L.tail
        · exact .inl hp
        · exact .inr ⟨t, s, hs, by omega, by omega⟩
      · rcases update_seg hr with ⟨-, ⟨⟩⟩ | ⟨-, hr⟩
        exact .inr ⟨u, r, hr, h⟩

end Lane

end BeehiveIm.Lib

/-
Trees in memory whose nodes point at their children and at their parent. Nodes join and leave a
tree, and hand children to each other.
-/
import Mathlib.Data.List.Perm.Basic

namespace BeehiveIm.Lib

/-- The pointers of a tree -/
structure Kin (α : Type) where
  root : Option α
  child : α → List α
  parent : α → Option α

namespace Kin

variable {α : Type} {F F' : Kin α} {live : α → Prop} {level level' : α → Nat} {a b n p q r : α} {moved : List α}

/-- The pointers of the live nodes fit each other, and lead down from level to level. -/
structure Wired (F : Kin α) (live : α → Prop) (level : α → Nat) : Prop where
  down : ∀ n, live n → ∀ c ∈ F.child n, live c ∧ level c + 1 = level n ∧ F.parent c = some n
  nodup : ∀ n, live n → (F.child n).Nodup
  up : ∀ n, live n → ∀ p, F.parent n = some p → live p ∧ n ∈ F.child p
  top : ∀ n, live n → F.parent n = none → F.root = some n
  root : ∀ r, F.root = some r → live r ∧ F.parent r = none

namespace Wired

theorem level_parent (h : F.Wired live level) (hn : live n) (hp : F.parent n = some p) : level n + 1 = level p :=
  (h.down p (h.up n hn p hp).1 n (h.up n hn p hp).2).2.1

/-- A child has one parent. -/
theorem parent_unique (h : F.Wired live level) (ha : live a) (hb : live b) (hna : n ∈ F.child a) (hnb : n ∈ F.child b) :
    a = b :=
  Option.some.inj ((h.down a ha n hna).2.2.symm.trans (h.down b hb n hnb).2.2)

/-- A node hands children to another one of its level. -/
theorem move (h : F.Wired live level) (ha : live a) (hb : live b) (hab : a ≠ b) (hlevel : level a = level b)
    (hroot : F'.root = F.root) (hca : (F'.child a ++ moved).Perm (F.child a))
    (hcb : (F'.child b).Perm (moved ++ F.child b)) (hchild : ∀ n, live n → n ≠ a → n ≠ b → F'.child n = F.child n)
    (hmoved : ∀ c ∈ moved, F'.parent c = some b) (hparent : ∀ c, live c → c ∉ moved → F'.parent c = F.parent c) :
    F'.Wired live level := by
  have hnodup := hca.nodup_iff.mpr (h.nodup a ha)
  have hof : ∀ c ∈ moved, c ∈ F.child a := fun c hc => hca.subset (List.mem_append_right _ hc)
  have hne : ∀ c ∈ moved, ∀ n, live n → c ∈ F.child n → n = a := fun c hc n hn hcn =>
    h.parent_unique hn ha hcn (hof c hc)
  refine ⟨fun n hn c hc => ?_, fun n hn => ?_, fun n hn p hp => ?_, fun n hn hp => ?_, fun r hr => ?_⟩
  · by_cases hna : n = a
    · subst hna
      have hold := hca.subset (List.mem_append_left _ hc)
      have hstays : c ∉ moved := fun hm => (List.nodup_append.mp hnodup).2.2 c hc c hm rfl
      obtain ⟨hlive, hdown, hpar⟩ := h.down n ha c hold
      exact ⟨hlive, hdown, (hparent c hlive hstays).trans hpar⟩
    by_cases hnb : n = b
    · subst hnb
      rcases List.mem_append.mp (hcb.subset hc) with hm | hold
      · obtain ⟨hlive, hdown, -⟩ := h.down a ha c (hof c hm)
        exact ⟨hlive, hdown.trans hlevel, hmoved c hm⟩
      · obtain ⟨hlive, hdown, hpar⟩ := h.down n hb c hold
        exact ⟨hlive, hdown, (hparent c hlive fun hm => hna (hne c hm n hb hold)).trans hpar⟩
    · rw [hchild n hn hna hnb] at hc
      obtain ⟨hlive, hdown, hpar⟩ := h.down n hn c hc
      exact ⟨hlive, hdown, (hparent c hlive fun hm => hna (hne c hm n hn hc)).trans hpar⟩
  · by_cases hna : n = a
    · subst hna
      exact (List.nodup_append.mp hnodup).1
    by_cases hnb : n = b
    · subst hnb
      rw [hcb.nodup_iff]
      refine List.nodup_append.mpr ⟨(List.nodup_append.mp hnodup).2.1, h.nodup n hb, ?_⟩
      rintro c hm _ hold rfl
      exact hna (hne c hm n hb hold)
    · rw [hchild n hn hna hnb]
      exact h.nodup n hn
  · by_cases hm : n ∈ moved
    · rw [hmoved n hm] at hp
      cases hp
      exact ⟨hb, hcb.symm.subset (List.mem_append_left _ hm)⟩
    · rw [hparent n hn hm] at hp
      obtain ⟨hlive, hmem⟩ := h.up n hn p hp
      refine ⟨hlive, ?_⟩
      by_cases hpa : p = a
      · subst hpa
        exact (List.mem_append.mp (hca.symm.subset hmem)).resolve_right hm
      by_cases hpb : p = b
      · subst hpb
        exact hcb.symm.subset (List.mem_append_right _ hmem)
      · rw [hchild p hlive hpa hpb]
        exact hmem
  · have hstays : n ∉ moved := fun hm => Option.some_ne_none b ((hmoved n hm).symm.trans hp)
    rw [hparent n hn hstays] at hp
    exact hroot.trans (h.top n hn hp)
  · obtain ⟨hlive, hpar⟩ := h.root r (hroot.symm.trans hr)
    have hstays : r ∉ moved := fun hm =>
      Option.some_ne_none a ((h.down a ha r (hof r hm)).2.2.symm.trans hpar)
    exact ⟨hlive, (hparent r hlive hstays).trans hpar⟩

/-- A new node without children joins those of `p`. -/
theorem attach (h : F.Wired live level) (hp : live p) (hq : ¬live q) (hroot : F'.root = F.root)
    (hlevel : level' q + 1 = level p) (hlevels : ∀ n, live n → level' n = level n)
    (hcp : (F'.child p).Perm (q :: F.child p)) (hcq : F'.child q = [])
    (hchild : ∀ n, live n → n ≠ p → F'.child n = F.child n) (hpq : F'.parent q = some p)
    (hparent : ∀ c, live c → F'.parent c = F.parent c) : F'.Wired (fun n => n = q ∨ live n) level' := by
  refine ⟨fun n hn c hc => ?_, fun n hn => ?_, fun n hn p' hp' => ?_, fun n hn hp' => ?_, fun r hr => ?_⟩
  · rcases hn with rfl | hn
    · rw [hcq] at hc
      exact absurd hc List.not_mem_nil
    rw [hlevels n hn]
    have hold : ∀ c ∈ F.child n, (c = q ∨ live c) ∧ level' c + 1 = level n ∧ F'.parent c = some n := fun c hc => by
      obtain ⟨hlive, hdown, hpar⟩ := h.down n hn c hc
      exact ⟨Or.inr hlive, by rw [hlevels c hlive, hdown], (hparent c hlive).trans hpar⟩
    by_cases hnp : n = p
    · subst hnp
      rcases List.mem_cons.mp (hcp.subset hc) with rfl | hc
      · exact ⟨Or.inl rfl, hlevel, hpq⟩
      · exact hold c hc
    · rw [hchild n hn hnp] at hc
      exact hold c hc
  · rcases hn with rfl | hn
    · rw [hcq]
      exact List.nodup_nil
    by_cases hnp : n = p
    · subst hnp
      rw [hcp.nodup_iff, List.nodup_cons]
      exact ⟨fun hm => hq (h.down n hp q hm).1, h.nodup n hp⟩
    · rw [hchild n hn hnp]
      exact h.nodup n hn
  · rcases hn with rfl | hn
    · rw [hpq] at hp'
      cases hp'
      exact ⟨Or.inr hp, hcp.symm.subset List.mem_cons_self⟩
    rw [hparent n hn] at hp'
    obtain ⟨hlive, hmem⟩ := h.up n hn p' hp'
    refine ⟨Or.inr hlive, ?_⟩
    by_cases hpp : p' = p
    · subst hpp
      exact hcp.symm.subset (List.mem_cons_of_mem _ hmem)
    · rw [hchild p' hlive hpp]
      exact hmem
  · rcases hn with rfl | hn
    · exact absurd (hpq.symm.trans hp') (Option.some_ne_none p)
    · exact hroot.trans (h.top n hn ((hparent n hn).symm.trans hp'))
  · obtain ⟨hlive, hpar⟩ := h.root r (hroot.symm.trans hr)
    exact ⟨Or.inr hlive, (hparent r hlive).trans hpar⟩

/-- A new node becomes the root, over the one there was. -/
theorem raise (h : F.Wired live level) (hr : F.root = some r) (hq : ¬live q) (hroot : F'.root = some q)
    (hlevel : level' q = level r + 1) (hlevels : ∀ n, live n → level' n = level n) (hcq : F'.child q = [r])
    (hchild : ∀ n, live n → F'.child n = F.child n) (hpr : F'.parent r = some q) (hpq : F'.parent q = none)
    (hparent : ∀ c, live c → c ≠ r → F'.parent c = F.parent c) : F'.Wired (fun n => n = q ∨ live n) level' := by
  obtain ⟨hlive, hnone⟩ := h.root r hr
  have hinner : ∀ n, live n → ∀ c ∈ F.child n, c ≠ r := by
    rintro n hn c hc rfl
    exact Option.some_ne_none n ((h.down n hn c hc).2.2.symm.trans hnone)
  refine ⟨fun n hn c hc => ?_, fun n hn => ?_, fun n hn p hp => ?_, fun n hn hp => ?_, fun r' hr' => ?_⟩
  · rcases hn with rfl | hn
    · rw [hcq] at hc
      rw [List.mem_singleton.mp hc, hlevels r hlive]
      exact ⟨Or.inr hlive, hlevel.symm, hpr⟩
    · rw [hchild n hn] at hc
      obtain ⟨hc', hdown, hpar⟩ := h.down n hn c hc
      rw [hlevels c hc', hlevels n hn, hparent c hc' (hinner n hn c hc)]
      exact ⟨Or.inr hc', hdown, hpar⟩
  · rcases hn with rfl | hn
    · rw [hcq]
      exact List.nodup_cons.mpr ⟨List.not_mem_nil, List.nodup_nil⟩
    · rw [hchild n hn]
      exact h.nodup n hn
  · rcases hn with rfl | hn
    · exact absurd (hpq.symm.trans hp).symm (Option.some_ne_none p)
    by_cases hnr : n = r
    · subst hnr
      rw [hpr] at hp
      cases hp
      exact ⟨Or.inl rfl, by rw [hcq]; exact List.mem_singleton_self n⟩
    · rw [hparent n hn hnr] at hp
      obtain ⟨hp', hmem⟩ := h.up n hn p hp
      rw [hchild p hp']
      exact ⟨Or.inr hp', hmem⟩
  · rcases hn with rfl | hn
    · exact hroot
    by_cases hnr : n = r
    · subst hnr
      exact absurd (hpr.symm.trans hp) (Option.some_ne_none q)
    · have htop := h.top n hn ((hparent n hn hnr).symm.trans hp)
      exact absurd (Option.some.inj (hr.symm.trans htop)).symm hnr
  · cases hroot.symm.trans hr'
    exact ⟨Or.inl rfl, hpq⟩

/-- The first node of a tree -/
theorem plant (h : F.Wired live level) (hr : F.root = none) (hq : ¬live q) (hroot : F'.root = some q)
    (hlevels : ∀ n, live n → level' n = level n) (hcq : F'.child q = []) (hchild : ∀ n, live n → F'.child n = F.child n)
    (hpq : F'.parent q = none) (hparent : ∀ c, live c → F'.parent c = F.parent c) :
    F'.Wired (fun n => n = q ∨ live n) level' := by
  refine ⟨fun n hn c hc => ?_, fun n hn => ?_, fun n hn p hp => ?_, fun n hn hp => ?_, fun r' hr' => ?_⟩
  · rcases hn with rfl | hn
    · rw [hcq] at hc
      exact absurd hc List.not_mem_nil
    · rw [hchild n hn] at hc
      obtain ⟨hc', hdown, hpar⟩ := h.down n hn c hc
      rw [hlevels c hc', hlevels n hn, hparent c hc']
      exact ⟨Or.inr hc', hdown, hpar⟩
  · rcases hn with rfl | hn
    · rw [hcq]
      exact List.nodup_nil
    · rw [hchild n hn]
      exact h.nodup n hn
  · rcases hn with rfl | hn
    · exact absurd (hpq.symm.trans hp).symm (Option.some_ne_none p)
    · obtain ⟨hp', hmem⟩ := h.up n hn p ((hparent n hn).symm.trans hp)
      rw [hchild p hp']
      exact ⟨Or.inr hp', hmem⟩
  · rcases hn with rfl | hn
    · exact hroot
    · exact absurd ((h.top n hn ((hparent n hn).symm.trans hp)).symm.trans hr) (Option.some_ne_none n)
  · cases hroot.symm.trans hr'
    exact ⟨Or.inl rfl, hpq⟩

/-- A node without children leaves those of `p`. -/
theorem detach (h : F.Wired live level) (hq : live q) (hcq : F.child q = []) (hpq : F.parent q = some p)
    (hroot : F'.root = F.root) (hcp : (q :: F'.child p).Perm (F.child p))
    (hchild : ∀ n, live n → n ≠ p → n ≠ q → F'.child n = F.child n)
    (hparent : ∀ c, live c → c ≠ q → F'.parent c = F.parent c) : F'.Wired (fun n => live n ∧ n ≠ q) level := by
  have hp : live p := (h.up q hq p hpq).1
  have hnodup := List.nodup_cons.mp (hcp.nodup_iff.mpr (h.nodup p hp))
  have hold : ∀ n, live n → n ≠ q → ∀ c ∈ F'.child n, c ∈ F.child n ∧ c ≠ q := fun n hn hnq c hc => by
    by_cases hnp : n = p
    · subst hnp
      exact ⟨hcp.subset (List.mem_cons_of_mem _ hc), fun heq => hnodup.1 (heq ▸ hc)⟩
    · rw [hchild n hn hnp hnq] at hc
      refine ⟨hc, ?_⟩
      rintro rfl
      exact hnp (h.parent_unique hn hp hc (h.up c hq p hpq).2)
  refine ⟨fun n hn c hc => ?_, fun n hn => ?_, fun n hn p' hp' => ?_, fun n hn hp' => ?_, fun r hr => ?_⟩
  · obtain ⟨hc, hcq'⟩ := hold n hn.1 hn.2 c hc
    obtain ⟨hlive, hdown, hpar⟩ := h.down n hn.1 c hc
    exact ⟨⟨hlive, hcq'⟩, hdown, (hparent c hlive hcq').trans hpar⟩
  · by_cases hnp : n = p
    · subst hnp
      exact hnodup.2
    · rw [hchild n hn.1 hnp hn.2]
      exact h.nodup n hn.1
  · rw [hparent n hn.1 hn.2] at hp'
    obtain ⟨hlive, hmem⟩ := h.up n hn.1 p' hp'
    have hpq' : p' ≠ q := by
      rintro rfl
      rw [hcq] at hmem
      exact List.not_mem_nil hmem
    refine ⟨⟨hlive, hpq'⟩, ?_⟩
    by_cases hpp : p' = p
    · subst hpp
      exact (List.mem_cons.mp (hcp.symm.subset hmem)).resolve_left hn.2
    · rw [hchild p' hlive hpp hpq']
      exact hmem
  · exact hroot.trans (h.top n hn.1 ((hparent n hn.1 hn.2).symm.trans hp'))
  · obtain ⟨hlive, hpar⟩ := h.root r (hroot.symm.trans hr)
    have hrq : r ≠ q := by
      rintro rfl
      exact Option.some_ne_none p (hpq.symm.trans hpar)
    exact ⟨⟨hlive, hrq⟩, (hparent r hlive hrq).trans hpar⟩

/-- The root goes, and its only child takes its place, if it has one. -/
theorem lower (h : F.Wired live level) (hr : F.root = some r) (hcr : F.child r = F'.root.toList)
    (hchild : ∀ n, live n → n ≠ r → F'.child n = F.child n) (htop : ∀ c ∈ F'.root, F'.parent c = none)
    (hparent : ∀ c, live c → c ∉ F'.root → F'.parent c = F.parent c) : F'.Wired (fun n => live n ∧ n ≠ r) level := by
  obtain ⟨hlive, hnone⟩ := h.root r hr
  have hinner : ∀ n, live n → ∀ c ∈ F.child n, c ≠ r := by
    rintro n hn c hc rfl
    exact Option.some_ne_none n ((h.down n hn c hc).2.2.symm.trans hnone)
  have hmem : ∀ c, c ∈ F'.root ↔ c ∈ F.child r := fun c => by
    rw [hcr, Option.mem_toList, Option.mem_def]
  refine ⟨fun n hn c hc => ?_, fun n hn => ?_, fun n hn p hp => ?_, fun n hn hp => ?_, fun c hc => ?_⟩
  · rw [hchild n hn.1 hn.2] at hc
    obtain ⟨hc', hdown, hpar⟩ := h.down n hn.1 c hc
    have hnot : c ∉ F'.root := fun hroot => hn.2 (h.parent_unique hn.1 hlive hc ((hmem c).mp hroot))
    exact ⟨⟨hc', hinner n hn.1 c hc⟩, hdown, (hparent c hc' hnot).trans hpar⟩
  · rw [hchild n hn.1 hn.2]
    exact h.nodup n hn.1
  · have hnot : n ∉ F'.root := fun hroot => Option.some_ne_none p (hp.symm.trans (htop n hroot))
    rw [hparent n hn.1 hnot] at hp
    obtain ⟨hp', hmem'⟩ := h.up n hn.1 p hp
    have hpr : p ≠ r := by
      rintro rfl
      exact hnot ((hmem n).mpr hmem')
    rw [hchild p hp' hpr]
    exact ⟨⟨hp', hpr⟩, hmem'⟩
  · by_cases hroot : n ∈ F'.root
    · exact hroot
    · have htop := h.top n hn.1 ((hparent n hn.1 hroot).symm.trans hp)
      exact absurd (Option.some.inj (hr.symm.trans htop)).symm hn.2
  · obtain ⟨hc', -, -⟩ := h.down r hlive c ((hmem c).mp hc)
    exact ⟨⟨hc', hinner r hlive c ((hmem c).mp hc)⟩, htop c hc⟩

/-- The pointers of the dead do not matter. -/
theorem congr (h : F.Wired live level) (hroot : F'.root = F.root) (hchild : ∀ n, live n → F'.child n = F.child n)
    (hparent : ∀ n, live n → F'.parent n = F.parent n) : F'.Wired live level := by
  refine ⟨fun n hn c hc => ?_, fun n hn => ?_, fun n hn p hp => ?_, fun n hn hp => ?_, fun r hr => ?_⟩
  · rw [hchild n hn] at hc
    obtain ⟨hlive, hdown, hpar⟩ := h.down n hn c hc
    exact ⟨hlive, hdown, (hparent c hlive).trans hpar⟩
  · rw [hchild n hn]
    exact h.nodup n hn
  · obtain ⟨hlive, hmem⟩ := h.up n hn p ((hparent n hn).symm.trans hp)
    rw [hchild p hlive]
    exact ⟨hlive, hmem⟩
  · exact hroot.trans (h.top n hn ((hparent n hn).symm.trans hp))
  · obtain ⟨hlive, hpar⟩ := h.root r (hroot.symm.trans hr)
    exact ⟨hlive, (hparent r hlive).trans hpar⟩

end Wired

end Kin

end BeehiveIm.Lib

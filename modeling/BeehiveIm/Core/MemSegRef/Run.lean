/-
What each step of a thread leaves, and runs of them.
-/
import BeehiveIm.Core.MemSegRef.Sites

namespace BeehiveIm.Core.MemSegRef

open BeehiveIm.Lib

variable {τ : Type} {w : World τ} {l l' : List Ptr} {t t' : τ} {a b n y : Nat} {p q : Ptr} {it it' : MemSegRefItem}
  {s : Seg} {room : Option Ptr} {old : Site τ}

/-! ## Reading the invariant -/

/-- The segment of a thread that is about an address that is in none of the other segments -/
theorem Kept.items_apart (h : Kept w l) (hs : s ∈ w.segs) (hq : q ∈ l) (hit : w.ctx.item q = some it)
    (hne : it.addr ≠ s.addr) :
    s.addr < it.addr ∧ s.addr + s.size ≤ it.addr ∨ it.addr < s.addr ∧ it.addr + it.size ≤ s.addr := by
  obtain ⟨site, hsees, hstands, hitem⟩ := h.site_of_item hit
  obtain ⟨s', hs', haddr, hsize⟩ : ∃ s' ∈ w.segs, s'.addr = it.addr ∧ s'.size = it.size := by
    have hstored := (hsees.stored q it hitem).1 hq
    cases hstands with
    | stored hc => exact ⟨_, ((hsees.seg _).2 rfl).1, rfl, congrArg (fun e => e.2.size) (Option.some.inj hitem)⟩
    | test ha => exact ⟨_, ((hsees.seg _).2 rfl).1, rfl, congrArg (fun e => e.2.size) (Option.some.inj hitem)⟩
    | _ => cases hstored
  have hapart : Seg.Apart s s' := h.apart.forall hs hs' fun heq => hne (by rw [heq, haddr])
  unfold Seg.Apart at hapart
  omega

/-- The item of a segment is in the tree; a thread may be to look at it. -/
structure InTree (w : World τ) (l : List Ptr) (s : Seg) (old : Site τ) (p : Ptr) (it : MemSegRefItem) : Prop where
  sees : Sees w l s.addr old
  seg : old.seg = some s
  item : old.item = some (p, it)
  stored : old.stored = true
  addr : it.addr = s.addr
  size : it.size = s.size
  count : s.count = it.count.toNat
  thread : it.count ≠ 0 ∧ old.thread = none ∨ ∃ t a, old.thread = some (t, .test a p) ∧ Covers it a

theorem InTree.covers (h : InTree w l s old p it) : Covers it a ↔ s.Has a := by
  unfold Covers Seg.Has
  rw [h.addr, h.size]

theorem InTree.mem (h : InTree w l s old p it) : p ∈ l := (h.sees.stored p it h.item).2 h.stored

theorem InTree.has_item (h : InTree w l s old p it) : w.ctx.item p = some it := ((h.sees.item p it).2 h.item).1

/-- So it is with the segments that calls may be made on. -/
theorem Kept.inTree (h : Kept w l) (hs : s ∈ w.segs) (hgiven : s.given = true) (hleave : ¬Leaving w.ctx s.addr) :
    ∃ old p it, InTree w l s old p it := by
  obtain ⟨site, hsees, hstands, hseg⟩ := h.site_of_seg hs
  cases hstands with
  | none => cases hseg
  | add =>
    have hnot := congrArg Seg.given (Option.some.inj hseg)
    rw [hgiven] at hnot
    cases hnot
  | insert =>
    have hnot := congrArg Seg.given (Option.some.inj hseg)
    rw [hgiven] at hnot
    cases hnot
  | stored hc =>
    have heq := Option.some.inj hseg
    exact ⟨_, _, _, hsees, hseg, rfl, rfl, rfl, congrArg Seg.size heq, (congrArg Seg.count heq).symm, Or.inl ⟨hc, rfl⟩⟩
  | test ha =>
    have heq := Option.some.inj hseg
    exact ⟨_, _, _, hsees, hseg, rfl, rfl, rfl, congrArg Seg.size heq, (congrArg Seg.count heq).symm,
      Or.inr ⟨_, _, rfl, ha⟩⟩
  | dealloc => exact absurd ⟨_, _, _, ((hsees.thread _ _).2 rfl).1, ((hsees.item _ _).2 rfl).1, rfl⟩ hleave

/-- A thread that is about `y` before and after a step, or in no call, is about no other address. -/
theorem frame_of {w' : World τ} (hbefore : about w.ctx (w.ctx.pc t) = some y ∨ w.ctx.pc t = .idle)
    (hafter : about w'.ctx (w'.ctx.pc t) = some y ∨ w'.ctx.pc t = .idle)
    (hsegs : ∀ s : Seg, s.addr ≠ y → (s ∈ w'.segs ↔ s ∈ w.segs))
    (hitem : ∀ p it, it.addr ≠ y → (w'.ctx.item p = some it ↔ w.ctx.item p = some it))
    (hlist : ∀ p it, w.ctx.item p = some it → it.addr ≠ y → (p ∈ l' ↔ p ∈ l))
    (hpcs : ∀ t', t' ≠ t → w'.ctx.pc t' = w.ctx.pc t') : Frame y t w w' l l' := by
  have hno : ∀ (w : World τ) (x : Nat), x ≠ y → about w.ctx (w.ctx.pc t) = some y ∨ w.ctx.pc t = .idle →
      about w.ctx (w.ctx.pc t) ≠ some x := by
    intro w x hx hor hsome
    rcases hor with habout | hidle
    · exact hx (Option.some.inj (hsome.symm.trans habout))
    · rw [hidle] at hsome
      cases hsome
  exact ⟨hsegs, hitem, hlist, hpcs, fun x hx => hno w x hx hbefore, fun x hx => hno w' x hx hafter⟩

/-! ## Counts that change -/

/-- The count of an item in the tree changes with the references; the thread `t` may come to look at
it. -/
theorem Kept.recount (h : Kept w l) (hold : InTree w l s old p it) (ha : s.Has a)
    (honly : ∀ t' pc, old.thread = some (t', pc) → t' = t) {c : BitVec 32} {d : Int} {pcs : τ → Pc}
    {th : Option (τ × Pc)} (hpcs : ∀ t', t' ≠ t → pcs t' = w.ctx.pc t')
    (hbefore : about w.ctx (w.ctx.pc t) = some s.addr ∨ w.ctx.pc t = .idle)
    (hthread : th = some (t, pcs t) ∧ (∃ a, pcs t = .test a p) ∨ th = none ∧ pcs t = .idle)
    (hstands : Stands s.addr ⟨some { s with count := s.count + d }, some (p, { it with count := c }), true, th⟩) :
    Kept ⟨⟨w.ctx.tree, Function.update w.ctx.item p (some { it with count := c }), pcs⟩, countBy a d w.segs, w.freed⟩ l := by
  have hkeep : ∀ s : Seg, ({ s with count := s.count + d } : Seg).addr = s.addr ∧
      ({ s with count := s.count + d } : Seg).size = s.size := fun s => ⟨rfl, rfl⟩
  have hs := ((hold.sees.seg s).2 hold.seg).1
  have hit := hold.has_item
  have haddr := hold.addr
  have hv : ∀ it' : MemSegRefItem, some { it with count := c } = some it' → it'.addr = s.addr := fun it' heq => by
    rw [← Option.some.inj heq]
    exact haddr
  have habout : about ⟨w.ctx.tree, Function.update w.ctx.item p (some { it with count := c }), pcs⟩ (pcs t) = some s.addr ∨
      pcs t = .idle := by
    rcases hthread with ⟨-, b, hb⟩ | ⟨-, hidle⟩
    · left
      rw [hb]
      show (Function.update w.ctx.item p _ p).map (·.addr) = some s.addr
      rw [Function.update_self, Option.map_some, haddr]
    · exact Or.inr hidle
  rw [countBy_eq h.apart hs ha d]
  refine h.move hold.sees honly ?_ ?_ hstands ?_
  · exact frame_of hbefore habout (fun s hs => mem_alter_ne hkeep hs)
      (fun q it' hit' => update_item_ne hv (fun it' heq => by cases hit.symm.trans heq; exact haddr) q hit')
      (fun _ _ _ _ => Iff.rfl) hpcs
  · refine ⟨h.tree.congr rfl fun q hq it' hit' => ?_, apart_alter hkeep h.apart, pos_alter hkeep h.pos, h.freed⟩
    by_cases hqp : q = p
    · subst hqp
      cases hit.symm.trans hit'
      exact ⟨_, Function.update_self .., rfl, rfl⟩
    · exact ⟨it', (Function.update_of_ne hqp ..).trans hit', rfl, rfl⟩
  · exact {
      seg := mem_alter hkeep fun s' => by rw [hold.sees.seg s', hold.seg]
      item := update_item hv fun q it' hq haddr' => by
        have hsame := (hold.sees.item q it').1 ⟨hq, haddr'⟩
        rw [hold.item] at hsame
        exact (congrArg Prod.fst (Option.some.inj hsame)).symm
      stored := fun q it' heq => by
        cases heq
        exact iff_of_true hold.mem rfl
      thread := by
        rcases hthread with ⟨hth, b, hb⟩ | hth
        · refine Or.inl ⟨hth, habout.resolve_right ?_⟩
          rw [hb]
          exact fun heq => nomatch heq
        · exact Or.inr hth }

theorem Seg.recounted {d : Int} {c : BitVec 32} (hgiven : s.given = true) (hcount : s.count + d = c.toNat) :
    ({ s with count := s.count + d } : Seg) = ⟨s.addr, s.size, c.toNat, true⟩ := by
  rw [hcount, hgiven]

/-- A count that stays above zero: whoever is to look at the item still is. -/
theorem Kept.recount_pos (h : Kept w l) (hpc : w.ctx.pc t = .idle) (hgiven : s.given = true) (ha : s.Has a)
    (hold : InTree w l s old p it) {c : BitVec 32} {d : Int} (hc : c ≠ 0) (hcount : s.count + d = c.toNat) :
    Kept ⟨⟨w.ctx.tree, Function.update w.ctx.item p (some { it with count := c }), w.ctx.pc⟩, countBy a d w.segs,
      w.freed⟩ l := by
  rcases hold.thread with ⟨-, hth⟩ | ⟨t', b, hth, hb⟩
  · refine h.recount (t := t) hold ha (fun t' pc heq => ?_) (fun _ _ => rfl) (Or.inr hpc)
      (Or.inr ⟨rfl, hpc⟩) ?_
    · rw [hth] at heq
      cases heq
    · rw [Seg.recounted hgiven hcount, hold.addr, hold.size]
      exact .stored hc
  · obtain ⟨hpc', habout⟩ := (hold.sees.thread t' _).2 hth
    refine h.recount (t := t') hold ha (fun t'' pc heq => ?_) (fun _ _ => rfl) (Or.inl (hpc' ▸ habout))
      (Or.inl ⟨rfl, b, hpc'⟩) ?_
    · rw [hth] at heq
      exact (congrArg Prod.fst (Option.some.inj heq)).symm
    · rw [hpc', Seg.recounted hgiven hcount, hold.addr, hold.size]
      exact .test (hold.covers.1 hb)

variable [DecidableEq τ]

theorem Kept.incr (h : Kept w l) (hpc : w.ctx.pc t = .idle) (hs : s ∈ w.segs) (hgiven : s.given = true) (ha : s.Has a)
    (hmeets : s.count + 1 < 2 ^ 32 ∧ ¬Leaving w.ctx s.addr) :
    ∃ w', w.next (t, .incr a) = some w' ∧ Kept w' l := by
  obtain ⟨old, p, it, hold⟩ := h.inTree hs hgiven hmeets.2
  have hquery := h.tree.query hold.mem hold.has_item (hold.covers.2 ha)
  have hcount := hold.count
  have hnat : (it.count + 1).toNat = it.count.toNat + 1 := by
    rw [BitVec.toNat_add]
    show (it.count.toNat + 1) % 2 ^ 32 = it.count.toNat + 1
    have hlt := hmeets.1
    omega
  have hne : it.count + 1 ≠ 0 := fun hzero => by
    rw [hzero] at hnat
    exact absurd hnat (Nat.succ_ne_zero _).symm
  have hnext : w.next (t, .incr a) = some ⟨⟨w.ctx.tree,
      Function.update w.ctx.item p (some { it with count := it.count + 1 }), w.ctx.pc⟩, countBy a 1 w.segs, w.freed⟩ := by
    unfold World.next Cntx.memSegRefIncr
    simp only [hquery, hold.has_item, Option.map_some]
    rfl
  exact ⟨_, hnext, h.recount_pos hpc hgiven ha hold hne (by rw [hcount, hnat]; rfl)⟩

/-- The thread that brings the count to zero is the only one that is to look at the item. -/
theorem Kept.decr (h : Kept w l) (hpc : w.ctx.pc t = .idle) (hs : s ∈ w.segs) (hgiven : s.given = true) (ha : s.Has a)
    (hmeets : 1 ≤ s.count ∧ (s.count = 1 → ¬Testing w.ctx s.addr)) :
    ∃ w', w.next (t, .decr a) = some w' ∧ Kept w' l := by
  have hleave : ¬Leaving w.ctx s.addr := fun hleave => by
    have hzero := h.right.leaving s hs hleave
    omega
  obtain ⟨old, p, it, hold⟩ := h.inTree hs hgiven hleave
  have hquery := h.tree.query hold.mem hold.has_item (hold.covers.2 ha)
  have hcount := hold.count
  have hnat : (it.count - 1).toNat = it.count.toNat - 1 := by
    have hle : (1 : BitVec 32) ≤ it.count := by
      rw [BitVec.le_def]
      show 1 ≤ it.count.toNat
      omega
    exact BitVec.toNat_sub_of_le hle
  have hcount' : s.count + -1 = (it.count - 1).toNat := by
    rw [hcount, hnat]
    omega
  by_cases hzero : it.count - 1 = 0
  · have hone : s.count = 1 := by
      rw [hzero] at hcount'
      have hnone : s.count + -1 = 0 := hcount'
      omega
    have hth : old.thread = none := by
      rcases hold.thread with ⟨-, hth⟩ | ⟨t', b, hth, -⟩
      · exact hth
      · exact absurd ⟨t', b, p, it, ((hold.sees.thread t' _).2 hth).1, hold.has_item, hold.addr⟩ (hmeets.2 hone)
    have hnext : w.next (t, .decr a) = some ⟨⟨w.ctx.tree,
        Function.update w.ctx.item p (some { it with count := it.count - 1 }),
        Function.update w.ctx.pc t (.test a p)⟩, countBy a (-1) w.segs, w.freed⟩ := by
      unfold World.next Cntx.memSegRefDecr
      simp only [hquery, hold.has_item, Option.map_some, if_pos hzero]
      rfl
    refine ⟨_, hnext, h.recount (t := t) hold ha (fun t' pc heq => ?_) (fun t' ht => Function.update_of_ne ht ..)
      (Or.inr hpc) (Or.inl ⟨rfl, a, Function.update_self ..⟩) ?_⟩
    · rw [hth] at heq
      cases heq
    · rw [Seg.recounted hgiven hcount', Function.update_self, hold.addr, hold.size]
      exact .test ha
  · have hnext : w.next (t, .decr a) = some ⟨⟨w.ctx.tree,
        Function.update w.ctx.item p (some { it with count := it.count - 1 }), w.ctx.pc⟩, countBy a (-1) w.segs,
        w.freed⟩ := by
      unfold World.next Cntx.memSegRefDecr
      simp only [hquery, hold.has_item, Option.map_some, if_neg hzero]
      rfl
    exact ⟨_, hnext, h.recount_pos hpc hgiven ha hold hzero hcount'⟩

/-! ## A segment comes -/

@[simp] theorem goto_pc_self (ctx : Cntx τ) (t : τ) (pc : Pc) : (ctx.goto t pc).pc t = pc := Function.update_self ..

theorem goto_pc_of_ne (ctx : Cntx τ) (pc : Pc) (h : t' ≠ t) : (ctx.goto t pc).pc t' = ctx.pc t' :=
  Function.update_of_ne h ..

theorem Kept.alloc (h : Kept w l) (hpc : w.ctx.pc t = .idle) (ha : 0 < a)
    (hapart : ∀ s ∈ w.segs, Seg.Apart ⟨a, n, 1, false⟩ s) : ∃ w', w.next (t, .alloc a n) = some w' ∧ Kept w' l := by
  have hnew : ∀ s ∈ w.segs, s.addr ≠ a := fun s hs haddr => by
    have hlt := hapart s hs
    unfold Seg.Apart at hlt
    dsimp only at hlt
    omega
  obtain ⟨old, hold, hstands⟩ := h.sites a
  have hseg : ∀ s, old.seg ≠ some s := fun s hs => by
    obtain ⟨hmem, haddr⟩ := (hold.seg s).2 hs
    exact hnew s hmem haddr
  cases hstands with
  | none =>
    have habout : about (w.ctx.goto t (.add a n)) ((w.ctx.goto t (.add a n)).pc t) = some a := by
      rw [goto_pc_self]
      rfl
    refine ⟨_, rfl, h.move (t := t) hold (fun _ _ h => nomatch h) ?_ ?_ (.add (t := t) (n := n)) ?_⟩
    · refine frame_of (Or.inr hpc) (Or.inl habout) (fun s hs => ?_) (fun _ _ _ => Iff.rfl) (fun _ _ _ _ => Iff.rfl)
        fun t' ht => goto_pc_of_ne _ _ ht
      rw [List.mem_cons, or_iff_right]
      exact fun heq => hs (congrArg Seg.addr heq)
    · refine ⟨h.tree.congr rfl fun p _ it hit => ⟨it, hit, rfl, rfl⟩, List.pairwise_cons.2 ⟨hapart, h.apart⟩, ?_, h.freed⟩
      intro s hs
      rcases List.mem_cons.1 hs with rfl | hs
      · exact ha
      · exact h.pos s hs
    · refine ⟨fun s => ?_, hold.item, hold.stored, Or.inl ⟨by rw [goto_pc_self], habout⟩⟩
      rw [List.mem_cons, Option.some_inj]
      refine ⟨fun ⟨hs, haddr⟩ => hs.elim Eq.symm fun hs => absurd haddr (hnew s hs), fun heq => ?_⟩
      rw [← heq]
      exact ⟨Or.inl rfl, rfl⟩
  | _ => exact absurd rfl (hseg _)

/-- `calloc` has answered. -/
theorem Kept.add (h : Kept w l) (hpc : w.ctx.pc t = .add a n) (hp : w.ctx.item p = none) :
    ∃ w', w.more t (some p) = some w' ∧ Kept w' l := by
  obtain ⟨old, hold, hstands, hth⟩ := h.site_of_thread (t := t) (x := a) (by rw [hpc]; rfl)
  rw [hpc] at hth
  cases hstands with
  | add =>
    cases hth
    have hs := ((hold.seg _).2 rfl).1
    have hquery : w.ctx.query a = some none := h.tree.query_none fun q hq it hit hcovers => by
      have hne : it.addr ≠ a := fun heq => nomatch (hold.item q it).1 ⟨hit, heq⟩
      have hside := h.items_apart hs hq hit hne
      unfold Covers at hcovers
      dsimp only at hside
      omega
    let ctx := ({ w.ctx with item := Function.update w.ctx.item p (some ⟨a, n, 1⟩) }.goto t (.insert a n p) : Cntx τ)
    have hthis : ctx.pc t = .insert a n p := goto_pc_self ..
    have hnext : w.more t (some p) = some { w with ctx := ctx } := by
      unfold World.more Cntx.memSegRefAdd
      rw [hpc]
      simp only [hquery, Option.map_some, World.returned]
      rw [if_neg]
      exact fun heq => nomatch hthis.symm.trans heq
    have habout : about ctx (ctx.pc t) = some a := by
      rw [hthis]
      rfl
    have hv : ∀ it, some (⟨a, n, 1⟩ : MemSegRefItem) = some it → it.addr = a := fun it heq => by
      cases heq
      rfl
    refine ⟨_, hnext, h.move hold (fun t' pc heq => by cases heq; rfl) ?_ ?_ (.insert (t := t) (n := n) (p := p)) ?_⟩
    · refine frame_of (Or.inl (by rw [hpc]; rfl)) (Or.inl habout) (fun _ _ => Iff.rfl)
        (fun q it hit => update_item_ne hv (fun it' heq => ?_) q hit) (fun _ _ _ _ => Iff.rfl)
        fun t' ht => goto_pc_of_ne _ _ ht
      rw [hp] at heq
      cases heq
    · refine ⟨h.tree.congr rfl fun q hq it hit => ⟨it, ?_, rfl, rfl⟩, h.apart, h.pos, h.freed⟩
      refine (Function.update_of_ne (fun heq => ?_) ..).trans hit
      rw [heq, hp] at hit
      cases hit
    · refine ⟨hold.seg, update_item hv fun q it hq haddr => ?_, fun q it heq => ?_, Or.inl ⟨by rw [hthis], habout⟩⟩
      · exact nomatch (hold.item q it).1 ⟨hq, haddr⟩
      · cases heq
        refine iff_of_false (fun hq => ?_) (fun heq => nomatch heq)
        obtain ⟨it, hit, -⟩ := h.tree.items p hq
        rw [hp] at hit
        cases hit
  | _ => cases hth

/-- The item goes into the tree, and `mem_seg_ref_alloc` returns; without memory for
a node it starts again. -/
theorem Kept.insert (h : Kept w l) (hpc : w.ctx.pc t = .insert a n p) :
    ∃ w' l', w.more t room = some w' ∧ Kept w' l' := by
  obtain ⟨old, hold, hstands, hth⟩ := h.site_of_thread (t := t) (x := a) (by rw [hpc]; rfl)
  rw [hpc] at hth
  cases hstands with
  | insert =>
    cases hth
    have hs := ((hold.seg _).2 rfl).1
    have hit := ((hold.item _ _).2 rfl).1
    have hpos : 0 < a := h.pos _ hs
    have hout : p ∉ l := fun hp => nomatch (hold.stored p _ rfl).1 hp
    have hside : ∀ q ∈ l, ∀ it, w.ctx.item q = some it → a < it.addr ∧ a + n ≤ it.addr ∨
        it.addr < a ∧ it.addr + it.size ≤ a := fun q hq it hit' => by
      refine h.items_apart hs hq hit' fun haddr => hout ?_
      cases (hold.item q it).1 ⟨hit', haddr⟩
      exact hq
    have hbefore : about w.ctx (w.ctx.pc t) = some a := by rw [hpc]; rfl
    have hgive : ∀ s : Seg, ({ s with given := true } : Seg).addr = s.addr ∧ ({ s with given := true } : Seg).size = s.size :=
      fun s => ⟨rfl, rfl⟩
    cases hroom : room.isSome with
    | true =>
      obtain ⟨tree, l', hins, htree, hmem⟩ := h.tree.insert hit hpos hside
      let ctx := ({ w.ctx with tree := tree }.goto t .idle : Cntx τ)
      have hthis : ctx.pc t = .idle := goto_pc_self ..
      have hnext : w.more t room = some { w with ctx := ctx, segs := give a w.segs } := by
        unfold World.more Cntx.memSegRefInsert
        rw [hpc]
        simp only [hroom, hins, Option.map_some, if_true, World.returned]
        rw [if_pos hthis]
      refine ⟨_, l', hnext, h.move hold (fun t' pc heq => by cases heq; rfl) ?_ ?_
        (.stored (c := 1) (n := n) (p := p) (by decide)) ?_⟩
      · refine frame_of (Or.inl hbefore) (Or.inr hthis) (fun s hs => mem_alter_ne hgive hs) (fun _ _ _ => Iff.rfl)
          (fun q it hq hne => ?_) fun t' ht => goto_pc_of_ne _ _ ht
        rw [hmem q, or_iff_right]
        rintro rfl
        cases hit.symm.trans hq
        exact hne rfl
      · exact ⟨htree.congr rfl fun q _ it hq => ⟨it, hq, rfl, rfl⟩, apart_alter hgive h.apart, pos_alter hgive h.pos,
          h.freed⟩
      · refine ⟨mem_alter hgive hold.seg, hold.item, fun q it heq => ?_, Or.inr ⟨rfl, hthis⟩⟩
        cases heq
        exact iff_of_true ((hmem p).2 (Or.inl rfl)) rfl
    | false =>
      have hins : w.ctx.tree.rbtInsert (w.ctx.cmp a) p false = some (w.ctx.tree, .err) :=
        h.tree.insert_err fun q hq it hit' hcovers => by
          have hlt := hside q hq it hit'
          unfold Covers at hcovers
          omega
      let ctx := ((w.ctx.free p).goto t (.add a n) : Cntx τ)
      have hthis : ctx.pc t = .add a n := goto_pc_self ..
      have hnext : w.more t room = some { w with ctx := ctx } := by
        unfold World.more Cntx.memSegRefInsert
        rw [hpc]
        simp only [hroom, hins, Option.map_some, World.returned]
        rw [if_neg (fun heq => nomatch heq), if_neg]
        exact fun heq => nomatch hthis.symm.trans heq
      have habout : about ctx (ctx.pc t) = some a := by
        rw [hthis]
        rfl
      have hv : ∀ it : MemSegRefItem, none = some it → it.addr = a := fun it heq => nomatch heq
      refine ⟨_, l, hnext, h.move hold (fun t' pc heq => by cases heq; rfl) ?_ ?_ (.add (t := t) (n := n)) ?_⟩
      · refine frame_of (Or.inl hbefore) (Or.inl habout) (fun _ _ => Iff.rfl)
          (fun q it hne => update_item_ne hv (fun it' heq => ?_) q hne) (fun _ _ _ _ => Iff.rfl)
          fun t' ht => goto_pc_of_ne _ _ ht
        cases hit.symm.trans heq
        rfl
      · refine ⟨h.tree.congr rfl fun q hq it hit' => ⟨it, ?_, rfl, rfl⟩, h.apart, h.pos, h.freed⟩
        exact (Function.update_of_ne (show q ≠ p from fun heq => hout (heq ▸ hq)) ..).trans hit'
      · refine ⟨hold.seg, update_item hv fun q it hq haddr => ?_, (fun q it heq => nomatch heq),
          Or.inl ⟨by rw [hthis], habout⟩⟩
        exact (congrArg Prod.fst (Option.some.inj ((hold.item q it).1 ⟨hq, haddr⟩))).symm
  | _ => cases hth

/-! ## A segment goes -/

/-- A count that is zero still takes the item out of the tree; one that is not ends the call. -/
theorem Kept.test (h : Kept w l) (hpc : w.ctx.pc t = .test b p) (hy : about w.ctx (.test b p) = some y) :
    ∃ w' l', w.more t room = some w' ∧ Kept w' l' := by
  obtain ⟨old, hold, hstands, hth⟩ := h.site_of_thread (t := t) (x := y) (by rw [hpc]; exact hy)
  rw [hpc] at hth
  cases hstands with
  | @test _ n _ c _ hb =>
    cases hth
    have hit := ((hold.item _ _).2 rfl).1
    have hp := (hold.stored _ _ rfl).2 rfl
    have hbefore : about w.ctx (w.ctx.pc t) = some y := by rw [hpc]; exact hy
    by_cases hc : c = 0
    · obtain ⟨tree, l', hdel, htree, hmem⟩ := h.tree.delete hp hit hb
      let ctx := ({ w.ctx with tree := tree }.goto t (.dealloc p) : Cntx τ)
      have hthis : ctx.pc t = .dealloc p := goto_pc_self ..
      have hnext : w.more t room = some { w with ctx := ctx } := by
        unfold World.more Cntx.memSegRefTest
        rw [hpc]
        simp only [hit, if_pos hc, hdel, Option.map_some]
        rfl
      have habout : about ctx (ctx.pc t) = some y := by
        rw [hthis]
        exact hy
      refine ⟨_, l', hnext, h.move hold (fun t' pc heq => by cases heq; rfl) ?_ ?_
        (.dealloc (t := t) (n := n) (c := c) (p := p)) ?_⟩
      · refine frame_of (Or.inl hbefore) (Or.inl habout) (fun _ _ => Iff.rfl) (fun _ _ _ => Iff.rfl)
          (fun q it hq hne => ?_) fun t' ht => goto_pc_of_ne _ _ ht
        rw [hmem q, and_iff_right]
        rintro rfl
        cases hit.symm.trans hq
        exact hne rfl
      · exact ⟨htree.congr rfl fun q _ it hq => ⟨it, hq, rfl, rfl⟩, h.apart, h.pos, h.freed⟩
      · refine ⟨?_, hold.item, fun q it heq => ?_, Or.inl ⟨by rw [hthis], habout⟩⟩
        · subst hc
          exact hold.seg
        · cases heq
          exact iff_of_false (fun hq => ((hmem p).1 hq).1 rfl) (fun heq => nomatch heq)
    · have hnext : w.more t room = some { w with ctx := w.ctx.goto t .idle } := by
        unfold World.more Cntx.memSegRefTest
        rw [hpc]
        simp only [hit, if_neg hc, Option.map_some]
      have hthis : (w.ctx.goto t .idle).pc t = .idle := goto_pc_self ..
      refine ⟨_, l, hnext, h.move hold (fun t' pc heq => by cases heq; rfl) ?_ ?_ (.stored (n := n) (p := p) hc) ?_⟩
      · exact frame_of (Or.inl hbefore) (Or.inr hthis) (fun _ _ => Iff.rfl) (fun _ _ _ => Iff.rfl)
          (fun _ _ _ _ => Iff.rfl) fun t' ht => goto_pc_of_ne _ _ ht
      · exact ⟨h.tree.congr rfl fun q _ it hq => ⟨it, hq, rfl, rfl⟩, h.apart, h.pos, h.freed⟩
      · exact ⟨hold.seg, hold.item, hold.stored, Or.inr ⟨rfl, hthis⟩⟩
  | _ => cases hth

/-- The memory goes back to the allocator, with no reference left. -/
theorem Kept.dealloc (h : Kept w l) (hpc : w.ctx.pc t = .dealloc p) (hy : about w.ctx (.dealloc p) = some y) :
    ∃ w', w.more t room = some w' ∧ Kept w' l := by
  obtain ⟨old, hold, hstands, hth⟩ := h.site_of_thread (t := t) (x := y) (by rw [hpc]; exact hy)
  rw [hpc] at hth
  cases hstands with
  | @dealloc _ n c _ =>
    cases hth
    obtain ⟨hs, -⟩ := (hold.seg _).2 rfl
    have hit := ((hold.item _ _).2 rfl).1
    have hout : p ∉ l := fun hp => nomatch (hold.stored p _ rfl).1 hp
    have hbefore : about w.ctx (w.ctx.pc t) = some y := by rw [hpc]; exact hy
    have hfind : (w.segs.find? fun s => s.addr = y) = some ⟨y, n, 0, true⟩ := by
      cases hf : w.segs.find? (fun s => s.addr = y) with
      | none => exact absurd (decide_eq_true rfl) (List.find?_eq_none.1 hf _ hs)
      | some s =>
        have haddr : s.addr = y := by simpa using List.find?_some hf
        exact ((hold.seg s).1 ⟨List.mem_of_find?_eq_some hf, haddr⟩).symm
    have hnodup : w.segs.Nodup := h.apart.imp fun {s s'} hs heq => by
      unfold Seg.Apart at hs
      rw [heq] at hs
      omega
    let ctx := ((w.ctx.free p).goto t .idle : Cntx τ)
    have hthis : ctx.pc t = .idle := goto_pc_self ..
    have hnext : w.more t room = some ⟨ctx, w.segs.erase ⟨y, n, 0, true⟩, ⟨y, n, 0, true⟩ :: w.freed⟩ := by
      unfold World.more Cntx.memSegRefDealloc
      rw [hpc]
      simp only [hit, Option.map_some, hfind]
      rfl
    have hv : ∀ it : MemSegRefItem, none = some it → it.addr = y := fun it heq => nomatch heq
    refine ⟨_, hnext, h.move hold (fun t' pc heq => by cases heq; rfl) ?_ ?_ .none ?_⟩
    · refine frame_of (Or.inl hbefore) (Or.inr hthis) (fun s hs => ?_)
        (fun q it hne => update_item_ne hv (fun it' heq => ?_) q hne) (fun _ _ _ _ => Iff.rfl)
        fun t' ht => goto_pc_of_ne _ _ ht
      · rw [hnodup.mem_erase_iff, and_iff_right]
        rintro rfl
        exact hs rfl
      · cases hit.symm.trans heq
        rfl
    · refine ⟨h.tree.congr rfl fun q hq it hit' => ⟨it, ?_, rfl, rfl⟩, h.apart.sublist List.erase_sublist, ?_, ?_⟩
      · exact (Function.update_of_ne (show q ≠ p from fun heq => hout (heq ▸ hq)) ..).trans hit'
      · exact fun s hs => h.pos s (List.mem_of_mem_erase hs)
      · intro s hs
        rcases List.mem_cons.1 hs with rfl | hs
        · rfl
        · exact h.freed s hs
    · refine ⟨fun s => iff_of_false (fun hs => ?_) (fun heq => nomatch heq), update_item hv fun q it hq haddr => ?_,
        (fun q it heq => nomatch heq), Or.inr ⟨rfl, hthis⟩⟩
      · obtain ⟨hne, hmem⟩ := hnodup.mem_erase_iff.1 hs.1
        exact hne (Option.some.inj ((hold.seg s).1 ⟨hmem, hs.2⟩)).symm
      · exact (congrArg Prod.fst (Option.some.inj ((hold.item q it).1 ⟨hq, haddr⟩))).symm
  | _ => cases hth

/-! ## Runs -/

omit [DecidableEq τ] in
theorem init_kept : Kept (World.init τ) [] where
  tree := ⟨⟨.nil, RbTree.rbtCreat_wf, rfl⟩, fun _ hp => (List.not_mem_nil hp).elim, List.Pairwise.nil⟩
  apart := List.Pairwise.nil
  pos := fun _ hs => (List.not_mem_nil hs).elim
  freed := fun _ hs => (List.not_mem_nil hs).elim
  known _ _ := rfl
  sites x := by
    refine ⟨⟨none, none, false, none⟩, ⟨fun s => ?_, fun p it => ?_, fun p it heq => ?_, fun t pc => ?_⟩, .none⟩
    · exact iff_of_false (fun h => (List.not_mem_nil h.1).elim) (Option.some_ne_none s).symm
    · exact iff_of_false (fun h => (Option.some_ne_none it).symm h.1) (Option.some_ne_none _).symm
    · cases heq
    · refine iff_of_false (fun h => ?_) (Option.some_ne_none _).symm
      obtain ⟨rfl, habout⟩ := h
      cases habout

theorem Kept.next (h : Kept w l) {e : τ × Act} (hallowed : Allowed w e) (hmeets : Meets w e) :
    ∃ w' l', w.next e = some w' ∧ Kept w' l' := by
  obtain ⟨t, act⟩ := e
  cases act with
  | alloc a n =>
    obtain ⟨w', hnext, hkept⟩ := h.alloc hallowed.1 hallowed.2.1 hallowed.2.2
    exact ⟨w', l, hnext, hkept⟩
  | incr a =>
    obtain ⟨hpc, s, hs, hgiven, ha⟩ := hallowed
    obtain ⟨w', hnext, hkept⟩ := h.incr hpc hs hgiven ha (hmeets s hs ha)
    exact ⟨w', l, hnext, hkept⟩
  | decr a =>
    obtain ⟨hpc, s, hs, hgiven, ha⟩ := hallowed
    obtain ⟨w', hnext, hkept⟩ := h.decr hpc hs hgiven ha (hmeets s hs ha)
    exact ⟨w', l, hnext, hkept⟩
  | more room =>
    cases hpc : w.ctx.pc t with
    | idle =>
      refine ⟨w, l, ?_, h⟩
      show w.more t room = some w
      unfold World.more
      rw [hpc]
    | add a n =>
      cases room with
      | none => exact absurd rfl (hmeets a n hpc)
      | some p =>
        obtain ⟨w', hnext, hkept⟩ := h.add hpc (hallowed p rfl)
        exact ⟨w', l, hnext, hkept⟩
    | insert a n p => exact h.insert hpc
    | test b p =>
      cases hy : about w.ctx (.test b p) with
      | none => exact nomatch hpc.symm.trans (h.known t (by rw [hpc]; exact hy))
      | some y => exact h.test hpc hy
    | dealloc p =>
      cases hy : about w.ctx (.dealloc p) with
      | none => exact nomatch hpc.symm.trans (h.known t (by rw [hpc]; exact hy))
      | some y =>
        obtain ⟨w', hnext, hkept⟩ := h.dealloc hpc hy
        exact ⟨w', l, hnext, hkept⟩

/-- In a run whose steps all meet the condition all is right after every step. -/
theorem segs_run_right {events : List (τ × Act)} (hallowed : Along World.next Allowed (World.init τ) events)
    (hmeets : Along World.next Meets (World.init τ) events) :
    ∀ before, before <+: events → ∃ w, before.foldlM World.next (World.init τ) = some w ∧ Right w := by
  intro before hbefore
  have hstep : ∀ (w : World τ) (e : τ × Act), (∃ l, Kept w l) → Allowed w e ∧ Meets w e →
      ∃ w', w.next e = some w' ∧ ∃ l, Kept w' l := by
    rintro w e ⟨l, hkept⟩ ⟨ha, hm⟩
    obtain ⟨w', l', hnext, hkept'⟩ := hkept.next ha hm
    exact ⟨w', hnext, l', hkept'⟩
  obtain ⟨w, hrun, l, hkept⟩ := along_run hstep before ⟨[], init_kept⟩ ((hallowed.and hmeets).initial hbefore)
  exact ⟨w, hrun, hkept.right⟩

/-- A segment is allocated, referred to once more by its last byte, and given back once. -/
theorem segs_run_right_two : ∃ w, [((), Act.alloc 4096 16), ((), .more (some 8)), ((), .more (some 16)),
      ((), .incr 4111), ((), .decr 4096)].foldlM World.next (World.init Unit) = some w ∧ Right w := by
  refine segs_run_right ?_ ?_ _ List.prefix_rfl
  · refine ⟨⟨rfl, by decide, fun s hs => nomatch hs⟩, fun w hw => ?_⟩
    cases hw
    refine ⟨fun p _ => rfl, fun w hw => ?_⟩
    cases hw
    refine ⟨fun p hp => ?_, fun w hw => ?_⟩
    · cases hp
      rfl
    cases hw
    refine ⟨⟨rfl, _, List.mem_singleton.2 rfl, rfl, by decide⟩, fun w hw => ?_⟩
    cases hw
    exact ⟨⟨rfl, _, List.mem_singleton.2 rfl, rfl, by decide⟩, fun _ _ => trivial⟩
  · refine ⟨trivial, fun w hw => ?_⟩
    cases hw
    refine ⟨(fun a n _ heq => nomatch heq), fun w hw => ?_⟩
    cases hw
    refine ⟨(fun a n hpc => nomatch hpc), fun w hw => ?_⟩
    cases hw
    refine ⟨fun s hs _ => ?_, fun w hw => ?_⟩
    · rw [List.mem_singleton.1 hs]
      exact ⟨by decide, fun ⟨_, _, _, hpc, _⟩ => nomatch hpc⟩
    cases hw
    refine ⟨fun s hs _ => ?_, fun _ _ => trivial⟩
    rw [List.mem_singleton.1 hs]
    exact ⟨by decide, fun hone => absurd hone (by decide)⟩

/-- Two threads bring the count of a segment to zero one after the other, before either has looked
at it again: the first gives the memory back and frees the item, and the second reads it. -/
theorem item_read_freed : ∃ w, [(true, Act.alloc 4096 16), (true, .more (some 8)), (true, .more (some 16)),
      (true, .decr 4096), (false, .incr 4111), (false, .decr 4111), (true, .more none), (true, .more none)].foldlM
        World.next (World.init Bool) = some w ∧
    Along World.next Allowed (World.init Bool) [(true, Act.alloc 4096 16), (true, .more (some 8)),
      (true, .more (some 16)), (true, .decr 4096), (false, .incr 4111), (false, .decr 4111), (true, .more none),
      (true, .more none), (false, .more none)] ∧
    w.next (false, .more none) = none := by
  refine ⟨_, rfl, ⟨⟨rfl, by decide, fun s hs => nomatch hs⟩, fun w hw => ?_⟩, rfl⟩
  cases hw
  refine ⟨fun p _ => rfl, fun w hw => ?_⟩
  cases hw
  refine ⟨fun p hp => ?_, fun w hw => ?_⟩
  · cases hp
    rfl
  cases hw
  refine ⟨⟨rfl, _, List.mem_singleton.2 rfl, rfl, by decide⟩, fun w hw => ?_⟩
  cases hw
  refine ⟨⟨rfl, _, List.mem_singleton.2 rfl, rfl, by decide⟩, fun w hw => ?_⟩
  cases hw
  refine ⟨⟨rfl, _, List.mem_singleton.2 rfl, rfl, by decide⟩, fun w hw => ?_⟩
  cases hw
  refine ⟨(fun p hp => nomatch hp), fun w hw => ?_⟩
  cases hw
  refine ⟨(fun p hp => nomatch hp), fun w hw => ?_⟩
  cases hw
  exact ⟨(fun p hp => nomatch hp), fun _ _ => trivial⟩

end BeehiveIm.Core.MemSegRef

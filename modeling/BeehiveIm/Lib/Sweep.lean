/-
A sweep over a sorted set that reads the expired members page by page and deletes what it reads. The
offset of the next page does not know of the deletions, so that one page is all such a sweep clears.
-/
import BeehiveIm.Lib.ZSet

namespace BeehiveIm.Lib

variable {α : Type}

namespace ZSet

/-- The members whose score is at most `ctm`. -/
abbrev expired (z : ZSet α) (ctm : Int) : List (α × Int) := z.rangeByScore none (some ctm)

theorem mem_expired {z : ZSet α} {ctm : Int} {e : α × Int} : e ∈ z.expired ctm ↔ e ∈ z.list ∧ e.2 ≤ ctm := by
  simp [expired, rangeByScore]

variable [DecidableEq α]

/-- The members of a page are deleted, each as `f` reads it back. -/
def remAll (f : α → α) (z : ZSet α) (page : List (α × Int)) : ZSet α := page.foldl (fun z e => z.rem (f e.1)) z

/-- The sweep: pages of `bat` members until one is short. -/
def sweep (bat : Nat) (f : α → α) (ctm : Int) (z : ZSet α) : Option (ZSet α) :=
  paged bat (fun z off => limit off bat (z.expired ctm)) (remAll f) (z.card + 1) 0 z

/-- What is left is what has not expired. -/
def Unexpired (z : ZSet α) (ctm : Int) (z' : ZSet α) : Prop := ∀ e, e ∈ z'.list ↔ e ∈ z.list ∧ ctm < e.2

variable {f : α → α} {bat : Nat} {ctm : Int} {z z' : ZSet α} {page : List (α × Int)} {e : α × Int}

theorem list_remAll : ∀ (page : List (α × Int)) (z : ZSet α),
    (z.remAll f page).list = z.list.filter fun e => ∀ p ∈ page, e.1 ≠ f p.1
  | [], z => by simp [remAll]
  | p :: page, z => by
    rw [remAll, List.foldl_cons, ← remAll, list_remAll page (z.rem (f p.1)), rem, List.filter_filter]
    refine List.filter_congr fun e _ => ?_
    rw [Bool.eq_iff_iff]
    simp only [Bool.and_eq_true, decide_eq_true_eq, List.forall_mem_cons]
    exact and_comm

theorem mem_remAll : e ∈ (z.remAll f page).list ↔ e ∈ z.list ∧ ∀ p ∈ page, e.1 ≠ f p.1 := by
  rw [list_remAll, List.mem_filter, decide_eq_true_eq]

theorem expired_remAll :
    (z.remAll f page).expired ctm = (z.expired ctm).filter fun e => ∀ p ∈ page, e.1 ≠ f p.1 := by
  rw [expired, expired, rangeByScore, rangeByScore, list_remAll, List.filter_filter, List.filter_filter]
  exact List.filter_congr fun e _ => Bool.and_comm _ _

omit [DecidableEq α] in
/-- Two expired members under one id are the same. -/
theorem expired_inj {x : α × Int} (he : e ∈ z.expired ctm) (hx : x ∈ z.expired ctm) (h : e.1 = x.1) : e = x :=
  List.inj_on_of_nodup_map z.nodup (mem_expired.1 he).1 (mem_expired.1 hx).1 h

/-- The first of the expired members stays, if the pages start behind it. -/
theorem head_remAll {rest : List (α × Int)} {off : Nat} (hoff : 0 < off) (h : z.expired ctm = e :: rest)
    (hf : ∀ x ∈ z.expired ctm, f x.1 = x.1) :
    ∃ rest', (z.remAll f (limit off bat (z.expired ctm))).expired ctm = e :: rest' := by
  obtain ⟨off, rfl⟩ : ∃ n, off = n + 1 := ⟨off - 1, by omega⟩
  refine ⟨rest.filter fun x => ∀ p ∈ limit off bat rest, x.1 ≠ f p.1, ?_⟩
  rw [expired_remAll, h, show limit (off + 1) bat (e :: rest) = limit off bat rest from rfl]
  refine List.filter_cons_of_pos ?_
  rw [decide_eq_true_eq]
  intro p hp hep
  have hrest : p ∈ rest := List.drop_subset _ _ (List.take_subset _ _ hp)
  have hmem : p ∈ z.expired ctm := h ▸ List.mem_cons_of_mem e hrest
  have hhead : e ∈ z.expired ctm := h ▸ List.mem_cons_self
  rw [hf p hmem] at hep
  have hne : p = e := (expired_inj hhead hmem hep).symm
  -- the ids differ, so the first one does not come again
  have hnd : (z.expired ctm).Nodup := (z.nodup.of_map).sublist List.filter_sublist
  rw [h] at hnd
  exact (List.nodup_cons.1 hnd).1 (hne ▸ hrest)

theorem sweep_total (hbat : 0 < bat) (f : α → α) (ctm : Int) (z : ZSet α) : ∃ z', z.sweep bat f ctm = some z' :=
  paged_total bat hbat (fun z : ZSet α => z.expired ctm) (fun _ _ => rfl)
    (fun z page => by rw [expired_remAll]; exact List.length_filter_le _ _) z.card 0 z (z.length_range_le _ _)

/-- A loop over a larger state that does the same to its sorted set is a sweep of the set. -/
theorem sweep_of {σ : Type} (hbat : 0 < bat) (f : α → α) (ctm : Int) (zs : σ → ZSet α) (clean : σ → α → σ)
    (hclean : ∀ s a, zs (clean s a) = (zs s).rem a) (s : σ) :
    ∃ s', paged bat (fun s off => limit off bat ((zs s).expired ctm))
        (fun s page => page.foldl (fun s e => clean s (f e.1)) s) ((zs s).card + 1) 0 s = some s' ∧
      (zs s).sweep bat f ctm = some (zs s') := by
  have hbody : ∀ (page : List (α × Int)) (s : σ),
      (zs s).remAll f page = zs (page.foldl (fun s e => clean s (f e.1)) s) := by
    intro page
    induction page with
    | nil => exact fun s => rfl
    | cons p page ih =>
      intro s
      rw [List.foldl_cons, ← ih, hclean]
      rfl
  obtain ⟨z', hz'⟩ := sweep_total hbat f ctm (zs s)
  obtain ⟨s', hs', rfl⟩ := paged_rel (fun (z : ZSet α) s => z = zs s) (fun z s off h => by rw [h])
    (fun z s page h => by rw [h]; exact hbody page s) _ 0 (zs s) s z' rfl hz'
  exact ⟨s', hs', hz'⟩

/-- A member that is not deleted under its own id is not deleted. -/
theorem sweep_keeps (hf : ∀ a, f (f a) = f a) (he : e ∈ z.list) (hne : f e.1 ≠ e.1)
    (h : z.sweep bat f ctm = some z') : e ∈ z'.list := by
  refine paged_keeps (fun z : ZSet α => e ∈ z.list) (fun z off he => ?_) _ _ _ _ he h
  refine mem_remAll.2 ⟨he, fun p _ hp => hne ?_⟩
  rw [hp, hf]

/-- Of more than one page, the first member behind the first page stays. -/
theorem sweep_keeps_next (hbat : 0 < bat) (hf : ∀ x ∈ z.expired ctm, f x.1 = x.1) (hlen : bat < (z.expired ctm).length)
    (h : z.sweep bat f ctm = some z') : ∃ x ∈ z.expired ctm, x ∈ z'.expired ctm := by
  have hpage : limit 0 bat (z.expired ctm) = (z.expired ctm).take bat := rfl
  have hfull : ¬(limit 0 bat (z.expired ctm)).length < bat := by
    rw [hpage, List.length_take]
    omega
  rw [sweep, paged, if_neg hfull] at h
  obtain ⟨x, rest, hdrop⟩ : ∃ x rest, (z.expired ctm).drop bat = x :: rest := by
    cases hd : (z.expired ctm).drop bat with
    | nil =>
      have := List.drop_eq_nil_iff.1 hd
      omega
    | cons x rest => exact ⟨x, rest, rfl⟩
  have hx : x ∈ z.expired ctm := List.drop_subset bat _ (hdrop ▸ List.mem_cons_self)
  have hnd : (z.expired ctm).Nodup := (z.nodup.of_map).sublist List.filter_sublist
  -- the first page takes out its members and no others
  have hfirst : (z.remAll f (limit 0 bat (z.expired ctm))).expired ctm = x :: rest := by
    rw [expired_remAll, ← hdrop, hpage]
    conv_lhs => rw [← List.take_append_drop bat (z.expired ctm)]
    have hsplit := List.nodup_append.1 (by rw [List.take_append_drop bat (z.expired ctm)]; exact hnd)
    rw [List.filter_append, List.filter_eq_nil_iff.2, List.filter_eq_self.2, List.nil_append]
    · intro y hy
      rw [decide_eq_true_eq, List.take_append_drop]
      intro p hp hyp
      have hpe : p ∈ z.expired ctm := List.take_subset _ _ hp
      rw [hf p hpe] at hyp
      have hyp : y = p := expired_inj (List.drop_subset _ _ hy) hpe hyp
      exact hsplit.2.2 p hp y hy hyp.symm
    · intro y hy
      rw [decide_eq_true_eq, List.take_append_drop]
      exact fun hall => hall y hy (hf y (List.take_subset _ _ hy)).symm
  let Inv (off : Nat) (z' : ZSet α) : Prop :=
    0 < off ∧ (∃ rest, z'.expired ctm = x :: rest) ∧ ∀ y ∈ z'.expired ctm, f y.1 = y.1
  have hfixed (z' : ZSet α) (page : List (α × Int)) (hz : ∀ y ∈ z'.expired ctm, f y.1 = y.1) :
      ∀ y ∈ (z'.remAll f page).expired ctm, f y.1 = y.1 := by
    intro y hy
    rw [expired_remAll] at hy
    exact hz y (List.mem_filter.1 hy).1
  have hstart : Inv (0 + bat) (z.remAll f (limit 0 bat (z.expired ctm))) :=
    ⟨by omega, ⟨rest, hfirst⟩, hfixed z _ hf⟩
  have hstep (z' : ZSet α) (off : Nat) (hz : Inv off z') :
      Inv (off + bat) (z'.remAll f (limit off bat (z'.expired ctm))) := by
    obtain ⟨hoff, ⟨rest, hrest⟩, hz⟩ := hz
    exact ⟨by omega, head_remAll hoff hrest hz, hfixed z' _ hz⟩
  obtain ⟨off', -, ⟨rest', hend⟩, -⟩ := paged_keeps_from Inv hstep _ _ _ _ hstart h
  exact ⟨x, hx, hend ▸ List.mem_cons_self⟩

/-- One page is swept clean, if its members are deleted under their own ids. -/
theorem sweep_page (hbat : 0 < bat) (hf : ∀ x ∈ z.expired ctm, f x.1 = x.1) (hlen : (z.expired ctm).length ≤ bat) :
    z.sweep bat f ctm = some (z.remAll f (z.expired ctm)) := by
  have hpage : limit 0 bat (z.expired ctm) = z.expired ctm := List.take_of_length_le hlen
  have hclean : (z.remAll f (z.expired ctm)).expired ctm = [] := by
    rw [expired_remAll, List.filter_eq_nil_iff]
    intro y hy
    rw [decide_eq_true_eq]
    exact fun hall => hall y hy (hf y hy).symm
  rw [sweep, paged, hpage]
  by_cases hshort : (z.expired ctm).length < bat
  · exact if_pos hshort
  · -- a full page is followed by an empty one
    rw [if_neg hshort]
    have hcard : (z.expired ctm).length ≤ z.card := z.length_range_le _ _
    obtain ⟨n, hn⟩ : ∃ n, z.card = n + 1 := ⟨z.card - 1, by omega⟩
    have hnil : limit (0 + bat) bat ((z.remAll f (z.expired ctm)).expired ctm) = [] := by
      rw [hclean, limit, List.drop_nil, List.take_nil]
    rw [hn, paged, hnil]
    exact if_pos hbat

/-- A sweep leaves what has not expired exactly where one page has all that has, and every such
member is deleted under its own id. -/
theorem sweep_iff (hbat : 0 < bat) (hf : ∀ a, f (f a) = f a) :
    (∃ z', z.sweep bat f ctm = some z' ∧ Unexpired z ctm z') ↔
      (∀ e ∈ z.expired ctm, f e.1 = e.1) ∧ (z.expired ctm).length ≤ bat := by
  constructor
  · rintro ⟨z', h, hz'⟩
    have hfix : ∀ e ∈ z.expired ctm, f e.1 = e.1 := by
      intro e he
      by_contra hne
      obtain ⟨hmem, hle⟩ := mem_expired.1 he
      have hlt := ((hz' e).1 (sweep_keeps hf hmem hne h)).2
      omega
    refine ⟨hfix, ?_⟩
    by_contra hlen
    obtain ⟨x, -, hx⟩ := sweep_keeps_next hbat hfix (by omega) h
    obtain ⟨hmem, hle⟩ := mem_expired.1 hx
    have hlt := ((hz' x).1 hmem).2
    omega
  · rintro ⟨hfix, hlen⟩
    refine ⟨_, sweep_page hbat hfix hlen, fun e => ?_⟩
    rw [mem_remAll]
    refine and_congr_right fun he => ?_
    constructor
    · intro hall
      by_contra hle
      have hexp : e ∈ z.expired ctm := mem_expired.2 ⟨he, by omega⟩
      exact hall e hexp (hfix e hexp).symm
    · rintro hlt p hp hep
      rw [hfix p hp] at hep
      obtain ⟨hpm, hple⟩ := mem_expired.1 hp
      have hpe : e = p := List.inj_on_of_nodup_map z.nodup he hpm hep
      rw [hpe] at hlt
      omega

end ZSet

end BeehiveIm.Lib

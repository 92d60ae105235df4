/-
Messages between those who make them and the outboxes of connections. Each lies in one place: it
waits to be put into an outbox, is in one, is left over from one that is closed, or has been
released. Each move keeps this.
-/
import BeehiveIm.Rtmq.Outbox.Sent
import Mathlib.Data.List.Perm.Basic

namespace BeehiveIm.Rtmq

open BeehiveIm.Lib BeehiveIm.Core

/-- What has gone out of an outbox: messages that are done, and part of the next of those that are
left. -/
structure Outbox.Wrote (frame : Nat → List Byte) (o : Outbox) (done left : List Nat) : Prop where
  queued : o.queued = done ++ left
  wire : ∃ part, o.wire = (frames frame done ++ part).map some ∧ part <+: frames frame left ∧
    ∀ a ∈ left.head?, part = [] ∨ part.length < (frame a).length

/-- Where the messages are. `made` are all of them, each at its address, and `boxes` and `closed`
the outboxes; `stale` are those that come into none any more and are still to be released. -/
structure Post where
  waiting : List Nat
  stale : List Nat
  boxes : List Outbox
  closed : List Outbox
  mem : Heap
  made : List Mesg
  freed : List Nat

namespace Post

/-- The message at an address, as it goes out. -/
def frame (P : Post) (a : Nat) : List Byte := (P.made[a]?).elim [] Mesg.wire

/-- Every place where a message can be. -/
def places (P : Post) : List Nat := P.waiting ++ P.stale ++ P.boxes.flatMap Outbox.held ++ P.freed

/-- All that was ever put into an outbox. -/
def everQueued (P : Post) : List Nat := (P.boxes ++ P.closed).flatMap Outbox.queued

/-- Each message is in one place, so it is released once; none is put into two outboxes, or twice
into one. Out of an outbox each goes whole, behind those put there before it, and is released then,
or when the outbox is closed. -/
structure Delivers (P : Post) : Prop where
  once : P.places.Perm (List.range P.made.length)
  single : P.everQueued.Nodup
  boxes : ∀ o ∈ P.boxes, ∃ done, o.Wrote P.frame done o.held ∧ ∀ a ∈ done, a ∈ P.freed
  closed : ∀ o ∈ P.closed, (∃ done left, o.Wrote P.frame done left) ∧ ∀ a ∈ o.queued, a ∈ P.stale ++ P.freed

/-- What every move keeps. -/
structure Inv (len : BitVec 32 → Nat) (P : Post) : Prop where
  once : P.places.Perm (List.range P.made.length)
  single : (P.waiting ++ P.everQueued).Nodup
  lt : ∀ a ∈ P.everQueued, a < P.made.length
  waiting : ∀ a ∈ P.waiting, ∃ m, P.made[a]? = some m ∧ m.Fits len ∧ P.mem a = some m.host
  stale : ∀ a ∈ P.stale, (P.mem a).isSome
  boxes : ∀ o ∈ P.boxes, ∃ done left off, o.Sends len P.frame P.mem done left off ∧ ∀ a ∈ done, a ∈ P.freed
  closed : ∀ o ∈ P.closed, (∃ done left, o.Wrote P.frame done left) ∧ ∀ a ∈ o.queued, a ∈ P.stale ++ P.freed

variable {len : BitVec 32 → Nat} {P : Post} {o o' : Outbox} {rest boxes closed : List Outbox} {a : Nat} {m : Mesg}
variable {waiting released kept : List Nat} {mem : Heap}

theorem Inv.delivers (h : P.Inv len) : P.Delivers where
  once := h.once
  single := (List.nodup_append.1 h.single).2.1
  boxes o ho := by
    obtain ⟨done, left, off, hsends, hdone⟩ := h.boxes o ho
    obtain ⟨part, hqueued, hwire, hprefix, hlt⟩ := hsends.part
    exact ⟨done, ⟨hqueued, part, hwire, hprefix, hlt⟩, hdone⟩
  closed := h.closed

theorem init_inv (len : BitVec 32 → Nat) : Inv len ⟨[], [], [], [], fun _ => none, [], []⟩ where
  once := .refl _
  single := .nil
  lt _ h := by simp [everQueued] at h
  waiting _ h := by cases h
  stale _ h := by cases h
  boxes _ h := by cases h
  closed _ h := by cases h

/-! ## One place each -/

/-- How often an address is anywhere. -/
theorem Inv.count_le (h : P.Inv len) (a : Nat) :
    P.waiting.count a + P.stale.count a + (P.boxes.flatMap Outbox.held).count a + P.freed.count a ≤ 1 := by
  have hnodup : P.places.Nodup := h.once.nodup_iff.2 List.nodup_range
  have hone := List.nodup_iff_count_le_one.1 hnodup a
  simp only [places, List.count_append] at hone
  omega

theorem Inv.count_box_le (h : P.Inv len) (hb : P.boxes.Perm (o :: rest)) (a : Nat) :
    P.waiting.count a + P.stale.count a + o.held.count a + (rest.flatMap Outbox.held).count a + P.freed.count a ≤ 1 := by
  have hone := h.count_le a
  have hboxes := (hb.flatMap_right Outbox.held).count_eq a
  simp only [List.flatMap_cons, List.count_append] at hboxes
  omega

theorem Inv.held_nodup (h : P.Inv len) (ho : o ∈ P.boxes) : o.held.Nodup := by
  obtain ⟨rest, hb⟩ : ∃ rest, P.boxes.Perm (o :: rest) := by
    classical exact ⟨_, List.perm_cons_erase ho⟩
  rw [List.nodup_iff_count_le_one]
  intro a
  have := h.count_box_le hb a
  omega

/-- What an outbox holds is nowhere else. -/
theorem Inv.apart (h : P.Inv len) (hb : P.boxes.Perm (o :: rest)) (ha : a ∈ o.held) :
    a ∉ P.waiting ∧ a ∉ P.stale ∧ (∀ o' ∈ rest, a ∉ o'.held) := by
  have hone := h.count_box_le hb a
  have hpos := List.count_pos_iff.2 ha
  refine ⟨fun hm => ?_, fun hm => ?_, fun o' ho' hm => ?_⟩
  · have := List.count_pos_iff.2 hm
    omega
  · have := List.count_pos_iff.2 hm
    omega
  · have hmem : a ∈ rest.flatMap Outbox.held := List.mem_flatMap.2 ⟨o', ho', hm⟩
    have := List.count_pos_iff.2 hmem
    omega

/-- What waits, or is stale, is in no outbox, and not both. -/
theorem Inv.waits (h : P.Inv len) (ha : a ∈ P.waiting) : a ∉ P.stale ∧ ∀ o ∈ P.boxes, a ∉ o.held := by
  have hone := h.count_le a
  have hpos := List.count_pos_iff.2 ha
  refine ⟨fun hm => ?_, fun o ho hm => ?_⟩
  · have := List.count_pos_iff.2 hm
    omega
  · have hmem : a ∈ P.boxes.flatMap Outbox.held := List.mem_flatMap.2 ⟨o, ho, hm⟩
    have := List.count_pos_iff.2 hmem
    omega

theorem Inv.stale_held (h : P.Inv len) (ha : a ∈ P.stale) : ∀ o ∈ P.boxes, a ∉ o.held := by
  intro o ho hm
  have hone := h.count_le a
  have hpos := List.count_pos_iff.2 ha
  have hmem : a ∈ P.boxes.flatMap Outbox.held := List.mem_flatMap.2 ⟨o, ho, hm⟩
  have := List.count_pos_iff.2 hmem
  omega

theorem Inv.place_lt (h : P.Inv len) (ha : a ∈ P.places) : a < P.made.length := List.mem_range.1 (h.once.mem_iff.1 ha)

theorem mem_everQueued (ho : o ∈ P.boxes ++ P.closed) (ha : a ∈ o.queued) : a ∈ P.everQueued :=
  List.mem_flatMap.2 ⟨o, ho, ha⟩

end Post

theorem Outbox.Wrote.congr {o : Outbox} {frame frame' : Nat → List Byte} {done left : List Nat}
    (h : o.Wrote frame done left) (hf : ∀ a ∈ o.queued, frame' a = frame a) : o.Wrote frame' done left := by
  obtain ⟨part, hwire, hprefix, hlt⟩ := h.wire
  rw [h.queued] at hf
  have hframes (addrs : List Nat) (hsub : ∀ a ∈ addrs, a ∈ done ++ left) : frames frame' addrs = frames frame addrs :=
    List.flatMap_congr fun a ha => hf a (hsub a ha)
  refine ⟨h.queued, part, ?_, ?_, ?_⟩
  · rw [hframes done fun a ha => List.mem_append_left _ ha]
    exact hwire
  · rw [hframes left fun a ha => List.mem_append_right _ ha]
    exact hprefix
  · intro a ha
    rw [hf a (List.mem_append_right _ (List.mem_of_mem_head? ha))]
    exact hlt a ha

namespace Post

variable {len : BitVec 32 → Nat} {P : Post} {o o' : Outbox} {rest boxes closed : List Outbox} {a : Nat} {m : Mesg}
variable {waiting released kept : List Nat} {mem : Heap}

/-! ## The moves -/

/-- A message is made. -/
theorem Inv.alloc (h : P.Inv len) (hfits : m.Fits len) : Inv len { P with
    waiting := P.made.length :: P.waiting
    mem := Function.update P.mem P.made.length (some m.host)
    made := P.made ++ [m] } := by
  have hne : ∀ a ∈ P.places, a ≠ P.made.length := fun a ha => (h.place_lt ha).ne
  have hget : ∀ a, a < P.made.length → (P.made ++ [m])[a]? = P.made[a]? := fun a ha => List.getElem?_append_left ha
  have hframe (a : Nat) (ha : a < P.made.length) : ((P.made ++ [m])[a]?).elim [] Mesg.wire = P.frame a := by
    rw [hget a ha]
    rfl
  have hwaiting : ∀ a ∈ P.waiting, a ∈ P.places := fun a ha =>
    List.mem_append_left _ (List.mem_append_left _ (List.mem_append_left _ ha))
  have hstale : ∀ a ∈ P.stale, a ∈ P.places := fun a ha =>
    List.mem_append_left _ (List.mem_append_left _ (List.mem_append_right _ ha))
  have hheld : ∀ o ∈ P.boxes, ∀ a ∈ o.held, a ∈ P.places := fun o ho a ha =>
    List.mem_append_left _ (List.mem_append_right _ (List.mem_flatMap.2 ⟨o, ho, ha⟩))
  constructor
  · rw [List.length_append, List.length_singleton, List.range_succ]
    exact (h.once.cons _).trans (List.perm_append_singleton _ _).symm
  · rw [List.cons_append, List.nodup_cons]
    refine ⟨fun hmem => ?_, h.single⟩
    rcases List.mem_append.1 hmem with hmem | hmem
    · exact hne _ (hwaiting _ hmem) rfl
    · exact (h.lt _ hmem).ne rfl
  · intro a ha
    rw [List.length_append]
    exact Nat.lt_add_right _ (h.lt a ha)
  · intro a ha
    rcases List.mem_cons.1 ha with rfl | ha
    · exact ⟨m, by simp, hfits, by simp⟩
    · obtain ⟨m', hmade, hfits', hmem⟩ := h.waiting a ha
      refine ⟨m', ?_, hfits', ?_⟩
      · exact (hget a (h.place_lt (hwaiting a ha))).trans hmade
      · exact (Function.update_of_ne (hne a (hwaiting a ha)) ..).trans hmem
  · intro a ha
    simp only [Function.update_of_ne (hne a (hstale a ha))]
    exact h.stale a ha
  · intro o ho
    obtain ⟨done, left, off, hsends, hdone⟩ := h.boxes o ho
    refine ⟨done, left, off, hsends.congr (fun a ha => ?_) (fun a ha => ?_), hdone⟩
    · exact hframe a (h.lt a (mem_everQueued (List.mem_append_left _ ho) ha))
    · exact Function.update_of_ne (hne a (hheld o ho a ha)) ..
  · intro o ho
    obtain ⟨⟨done, left, hwrote⟩, hfreed⟩ := h.closed o ho
    refine ⟨⟨done, left, hwrote.congr fun a ha => ?_⟩, hfreed⟩
    exact hframe a (h.lt a (mem_everQueued (List.mem_append_right _ ho) ha))

/-- Messages that wait, or are stale, are released. -/
theorem Inv.release (h : P.Inv len) {stale : List Nat} (hw : (P.waiting ++ P.stale).Perm (released ++ (waiting ++ stale)))
    (hsub : waiting.Sublist P.waiting) (hstale : ∀ a ∈ stale, a ∈ P.stale) :
    ∃ mem, releaseAll P.mem released = some mem ∧ Inv len { P with
      waiting := waiting, stale := stale, mem := mem, freed := P.freed ++ released } := by
  have hcount (a : Nat) : released.count a + waiting.count a + stale.count a = P.waiting.count a + P.stale.count a := by
    have := hw.count_eq a
    simp only [List.count_append] at this
    omega
  have hplace : ∀ a ∈ released, a ∈ P.waiting ++ P.stale := fun a ha => hw.mem_iff.2 (List.mem_append_left _ ha)
  have hsome : ∀ a ∈ released, (P.mem a).isSome := by
    intro a ha
    rcases List.mem_append.1 (hplace a ha) with ha | ha
    · obtain ⟨m, -, -, hmem⟩ := h.waiting a ha
      rw [hmem]
      rfl
    · exact h.stale a ha
  have hrelease := releaseAll_spec released (List.nodup_iff_count_le_one.2 fun a => by
    have := hcount a
    have := h.count_le a
    omega) hsome
  have hnot : ∀ a, a ∈ waiting ∨ a ∈ stale → a ∉ released := by
    intro a ha hm
    have hle := h.count_le a
    have heq := hcount a
    have hpos := List.count_pos_iff.2 hm
    rcases ha with ha | ha
    · have := List.count_pos_iff.2 ha
      omega
    · have := List.count_pos_iff.2 ha
      omega
  refine ⟨_, hrelease, ?_, ?_, h.lt, ?_, ?_, ?_, ?_⟩
  · refine List.Perm.trans ?_ h.once
    rw [List.perm_iff_count]
    intro a
    have := hcount a
    simp only [places, List.count_append]
    omega
  · exact h.single.sublist (hsub.append_right _)
  · intro a ha
    simp only [if_neg (hnot a (.inl ha))]
    exact h.waiting a (hsub.subset ha)
  · intro a ha
    simp only [if_neg (hnot a (.inr ha))]
    exact h.stale a (hstale a ha)
  · intro o ho
    obtain ⟨done, left, off, hsends, hdone⟩ := h.boxes o ho
    refine ⟨done, left, off, hsends.congr (fun _ _ => rfl) fun a ha => if_neg fun hm => ?_, fun a ha =>
      List.mem_append_left _ (hdone a ha)⟩
    rcases List.mem_append.1 (hplace a hm) with hm | hm
    · exact (h.waits hm).2 o ho ha
    · exact h.stale_held hm o ho ha
  · intro o ho
    obtain ⟨hwrote, hall⟩ := h.closed o ho
    refine ⟨hwrote, fun a ha => ?_⟩
    have hpos := List.count_pos_iff.2 (hall a ha)
    have heq := hcount a
    have hqueued : a ∉ P.waiting := fun hm => (List.nodup_append.1 h.single).2.2 a hm a
      (mem_everQueued (List.mem_append_right _ ho) ha) rfl
    have hle := hsub.count_le a
    rw [← List.count_pos_iff]
    rw [← List.count_eq_zero] at hqueued
    simp only [List.count_append] at hpos ⊢
    omega

/-- An outbox changes, with what it holds; a message that waits may come into it,
others may be released. -/
theorem Inv.change (h : P.Inv len) (hb : P.boxes.Perm (o :: rest)) (hb' : boxes.Perm (o' :: rest)) {freed : List Nat}
    (honce : (waiting ++ o'.held ++ freed).Perm (P.waiting ++ o.held ++ P.freed))
    (hqueued : (waiting ++ o'.queued).Perm (P.waiting ++ o.queued)) (hsub : ∀ a ∈ waiting, a ∈ P.waiting ∧ mem a = P.mem a)
    (hmem : ∀ a, a ∉ P.waiting → a ∉ o.held → mem a = P.mem a) (hfreed : ∀ a ∈ P.freed, a ∈ freed)
    (hsends : ∃ done left off, o'.Sends len P.frame mem done left off ∧ ∀ a ∈ done, a ∈ freed) :
    Inv len { P with waiting := waiting, boxes := boxes, mem := mem, freed := freed } := by
  have hq (a : Nat) : (waiting ++ everQueued { P with boxes := boxes }).count a = (P.waiting ++ P.everQueued).count a := by
    have h₁ := hqueued.count_eq a
    have h₂ := (hb.flatMap_right Outbox.queued).count_eq a
    have h₃ := (hb'.flatMap_right Outbox.queued).count_eq a
    simp only [everQueued, List.flatMap_append, List.flatMap_cons, List.count_append] at h₁ h₂ h₃ ⊢
    omega
  constructor
  · refine List.Perm.trans ?_ h.once
    rw [List.perm_iff_count]
    intro a
    have h₁ := honce.count_eq a
    have h₂ := (hb.flatMap_right Outbox.held).count_eq a
    have h₃ := (hb'.flatMap_right Outbox.held).count_eq a
    simp only [places, List.flatMap_cons, List.count_append] at h₁ h₂ h₃ ⊢
    omega
  · exact (List.perm_iff_count.2 hq).nodup_iff.2 h.single
  · intro a ha
    have hmem : a ∈ P.waiting ++ P.everQueued := (List.perm_iff_count.2 hq).mem_iff.1 (List.mem_append_right _ ha)
    rcases List.mem_append.1 hmem with hmem | hmem
    · exact h.place_lt (List.mem_append_left _ (List.mem_append_left _ (List.mem_append_left _ hmem)))
    · exact h.lt a hmem
  · intro a ha
    obtain ⟨hwait, hsame⟩ := hsub a ha
    simp only [hsame]
    exact h.waiting a hwait
  · intro a ha
    have hsame := hmem a (fun hm => (h.waits hm).1 ha) fun hm => (h.apart hb hm).2.1 ha
    simp only [hsame]
    exact h.stale a ha
  · intro o'' ho
    rcases List.mem_cons.1 (hb'.mem_iff.1 ho) with rfl | ho
    · exact hsends
    · have ho₀ : o'' ∈ P.boxes := hb.mem_iff.2 (List.mem_cons_of_mem _ ho)
      obtain ⟨done, left, off, hsends, hdone⟩ := h.boxes o'' ho₀
      refine ⟨done, left, off, hsends.congr (fun _ _ => rfl) fun a ha => ?_, fun a ha => hfreed a (hdone a ha)⟩
      refine hmem a (fun hm => (h.waits hm).2 o'' ho₀ ha) fun hm => ?_
      exact (h.apart hb hm).2.2 o'' ho ha
  · intro o'' ho
    obtain ⟨hwrote, hall⟩ := h.closed o'' ho
    refine ⟨hwrote, fun a ha => ?_⟩
    rcases List.mem_append.1 (hall a ha) with ha | ha
    · exact List.mem_append_left _ ha
    · exact List.mem_append_right _ (hfreed a ha)

/-- A message that waits is put into a list. -/
theorem Inv.push (h : P.Inv len) (hw : P.waiting = a :: waiting) (hb : P.boxes.Perm (o :: rest))
    (hb' : boxes.Perm (o.push a :: rest)) : Inv len { P with waiting := waiting, boxes := boxes } := by
  obtain ⟨done, left, off, hsends, hdone⟩ := h.boxes o (hb.mem_iff.2 List.mem_cons_self)
  obtain ⟨m, hmade, hfits, hmem⟩ := h.waiting a (by rw [hw]; exact List.mem_cons_self)
  have hframe : P.frame a = m.wire := by
    rw [frame, hmade]
    rfl
  refine h.change hb hb' ?_ ?_ (fun b hm => ⟨?_, rfl⟩) (fun _ _ _ => rfl) (fun _ hm => hm)
    ⟨done, left, off, hsends.push hfits hframe hmem, hdone⟩
  · rw [hw, Outbox.held_push, List.perm_iff_count]
    intro b
    simp only [List.count_append, List.cons_append, List.count_cons, List.count_nil]
    omega
  · rw [hw, List.perm_iff_count]
    intro b
    simp only [Outbox.push, List.count_append, List.cons_append, List.count_cons, List.count_nil]
    omega
  · rw [hw]
    exact List.mem_cons_of_mem _ hm

/-- What is in the list goes into the buffer. -/
theorem Inv.wiovAdd (h : P.Inv len) (hb : P.boxes.Perm (o :: rest)) : ∃ o' mem, o.wiovAdd len P.mem = some (o', mem) ∧
    o'.queued = o.queued ∧ ∀ boxes : List Outbox, boxes.Perm (o' :: rest) → Inv len { P with boxes := boxes, mem := mem } := by
  have ho := hb.mem_iff.2 List.mem_cons_self
  obtain ⟨done, left, off, hsends, hdone⟩ := h.boxes o ho
  obtain ⟨o', mem, left', hadd, hsends', hheld, hqueued, hmem⟩ := hsends.wiovAdd (h.held_nodup ho)
  refine ⟨o', mem, hadd, hqueued, fun boxes hb' => ?_⟩
  refine h.change hb hb' ?_ ?_ (fun a ha => ⟨ha, hmem a fun hm => (h.apart hb hm).1 ha⟩) (fun a _ => hmem a)
    (fun _ hm => hm) ⟨done, left', off, hsends', hdone⟩
  · rw [hheld]
  · rw [hqueued]

/-- A write. -/
theorem Inv.writev (h : P.Inv len) (hb : P.boxes.Perm (o :: rest)) (n : Nat) :
    ∃ o' mem more, o.writev P.mem n = some (o', mem, more) ∧ o'.queued = o.queued ∧ ∀ boxes : List Outbox,
      boxes.Perm (o' :: rest) → Inv len { P with boxes := boxes, mem := mem, freed := P.freed ++ more } := by
  have ho := hb.mem_iff.2 List.mem_cons_self
  obtain ⟨done, left, off, hsends, hdone⟩ := h.boxes o ho
  obtain ⟨o', mem, more, left', off', hwritev, hsends', hheld, hqueued, hmem⟩ := hsends.writev (h.held_nodup ho) n
  have hmore : ∀ a ∈ more, a ∈ o.held := fun a ha => by
    rw [hheld]
    exact List.mem_append_left _ ha
  refine ⟨o', mem, more, hwritev, hqueued, fun boxes hb' => ?_⟩
  refine h.change hb hb' ?_ ?_ (fun a ha => ⟨ha, hmem a fun hm => (h.apart hb (hmore a hm)).1 ha⟩)
    (fun a _ ha => hmem a fun hm => ha (hmore a hm)) (fun b hm => List.mem_append_left _ hm)
    ⟨done ++ more, left', off', hsends', fun a ha => ?_⟩
  · rw [List.perm_iff_count]
    intro b
    simp only [hheld, List.count_append]
    omega
  · rw [hqueued]
  · rcases List.mem_append.1 ha with ha | ha
    · exact List.mem_append_left _ (hdone a ha)
    · exact List.mem_append_right _ ha

/-- A message that waits goes into the buffer, behind which there is no list. -/
theorem Inv.load (h : P.Inv len) (hw : P.waiting = a :: waiting) (hb : P.boxes.Perm (o :: rest)) (hl : o.mesgList = [])
    (hfull : o.send.wiovIsfull = false) (param : Nat) : ∃ mem W, wiovLoad len param P.mem o.send a = some (mem, W) ∧
      ∀ boxes : List Outbox, boxes.Perm ({ o with send := W, queued := o.queued ++ [a] } :: rest) →
        Inv len { P with waiting := waiting, boxes := boxes, mem := mem } := by
  have ho := hb.mem_iff.2 List.mem_cons_self
  have ha : a ∈ P.waiting := by
    rw [hw]
    exact List.mem_cons_self
  obtain ⟨done, left, off, hsends, hdone⟩ := h.boxes o ho
  obtain ⟨m, hmade, hfits, hmem⟩ := h.waiting a ha
  have hframe : P.frame a = m.wire := by
    rw [frame, hmade]
    rfl
  -- the message passes through the list
  have hpush := hsends.push hfits hframe hmem
  have hn : (o.push a).held.Nodup := by
    rw [Outbox.held_push]
    refine List.nodup_append.2 ⟨h.held_nodup ho, List.nodup_singleton a, ?_⟩
    rintro b hb' c hc rfl
    obtain rfl := List.mem_singleton.1 hc
    exact (h.waits ha).2 o ho hb'
  rw [hpush.held] at hn
  have hlist : (o.push a).mesgList = [a] := by rw [Outbox.push, hl]; rfl
  have hq := hpush.queued
  rw [hlist] at hq hn
  obtain ⟨W, hload, hsends'⟩ := hpush.load param hq (fun _ hb => by cases hb) hfits hframe hmem hn hfull
  have hother : ∀ b, b ≠ a → Function.update P.mem a (some m.wire) b = P.mem b := fun b hne => Function.update_of_ne hne ..
  have hnodup : a ∉ waiting := by
    have := (List.nodup_append.1 h.single).1
    rw [hw] at this
    exact (List.nodup_cons.1 this).1
  refine ⟨_, W, hload, fun boxes hb' => h.change hb hb' ?_ ?_ (fun b hb => ⟨?_, ?_⟩) (fun b hb _ => ?_) (fun _ hm => hm)
    ⟨done, left ++ [⟨a, m.wire.length, param, 1, 1⟩], off, ?_, hdone⟩⟩
  · have hheld := hsends'.held
    have hheld' : ({ o with send := W, queued := o.queued ++ [a] } : Outbox).held = o.held ++ [a] := by
      refine Eq.trans ?_ (hheld.trans ?_)
      · simp [Outbox.held, hl]
      · rw [hsends.held, hl]
        simp
    rw [hheld', hw, List.perm_iff_count]
    intro b
    simp only [List.count_append, List.cons_append, List.count_cons, List.count_nil]
    omega
  · rw [hw, List.perm_iff_count]
    intro b
    simp only [List.count_append, List.cons_append, List.count_cons, List.count_nil]
    omega
  · rw [hw]
    exact List.mem_cons_of_mem _ hb
  · refine hother b ?_
    rintro rfl
    exact hnodup hb
  · refine hother b ?_
    rintro rfl
    exact hb ha
  · have hsame : ({ o with send := W, queued := o.queued ++ [a] } : Outbox) =
        { o.push a with mesgList := [], send := W } := by rw [Outbox.push, ← hl]
    rw [hsame]
    exact hsends'

/-- Lists in another order. -/
theorem Inv.perm (h : P.Inv len) {stale : List Nat} (hw : waiting.Perm P.waiting) (hs : stale.Perm P.stale)
    (hb : boxes.Perm P.boxes) (hc : closed.Perm P.closed) :
    Inv len { P with waiting := waiting, stale := stale, boxes := boxes, closed := closed } := by
  have hall : (boxes ++ closed).Perm (P.boxes ++ P.closed) := hb.append hc
  have hever : (everQueued { P with boxes := boxes, closed := closed }).Perm P.everQueued := hall.flatMap_right _
  constructor
  · refine List.Perm.trans ?_ h.once
    exact ((hw.append hs).append (hb.flatMap_right _)).append_right _
  · exact (hw.append hever).nodup_iff.2 h.single
  · exact fun a ha => h.lt a (hever.mem_iff.1 ha)
  · exact fun a ha => h.waiting a (hw.mem_iff.1 ha)
  · exact fun a ha => h.stale a (hs.mem_iff.1 ha)
  · exact fun o ho => h.boxes o (hb.mem_iff.1 ho)
  · intro o ho
    obtain ⟨hwrote, hall⟩ := h.closed o (hc.mem_iff.1 ho)
    exact ⟨hwrote, fun a ha => (hs.append_right _).mem_iff.2 (hall a ha)⟩

/-- A new outbox. -/
theorem Inv.fresh (h : P.Inv len) (ho : o.Fresh) : Inv len { P with boxes := o :: P.boxes } := by
  have hever : everQueued { P with boxes := o :: P.boxes } = P.everQueued := by
    rw [everQueued, List.cons_append, List.flatMap_cons, ho.queued]
    rfl
  refine { h with
    once := ?_, single := by rw [hever]; exact h.single, lt := by rw [hever]; exact h.lt, boxes := fun o' ho' => ?_ }
  · have hheld : (o :: P.boxes).flatMap Outbox.held = P.boxes.flatMap Outbox.held := by
      rw [List.flatMap_cons, ho.held]
      rfl
    rw [places, hheld]
    exact h.once
  · rcases List.mem_cons.1 ho' with rfl | ho'
    · exact ⟨[], [], 0, ho.sends, fun _ ha => by cases ha⟩
    · exact h.boxes o' ho'

/-- An outbox is closed: what it holds is released, but for what is kept. -/
theorem Inv.close (h : P.Inv len) (hb : P.boxes.Perm (o :: rest)) (hheld : o.held.Perm (released ++ kept))
    (hc : closed.Perm (o :: P.closed)) (hr : boxes.Perm rest) : ∃ mem, releaseAll P.mem released = some mem ∧ Inv len { P with
      stale := P.stale ++ kept, boxes := boxes, closed := closed, mem := mem, freed := P.freed ++ released } := by
  have ho := hb.mem_iff.2 List.mem_cons_self
  obtain ⟨done, left, off, hsends, hdone⟩ := h.boxes o ho
  have hnodup := hheld.nodup_iff.1 (h.held_nodup ho)
  have hrel : ∀ a ∈ released, a ∈ o.held := fun a ha => hheld.mem_iff.2 (List.mem_append_left _ ha)
  have hkept : ∀ a ∈ kept, a ∈ o.held := fun a ha => hheld.mem_iff.2 (List.mem_append_right _ ha)
  have hrelease := releaseAll_spec released (List.nodup_append.1 hnodup).1 fun a ha => hsends.isSome a (hrel a ha)
  have hall : (boxes ++ closed).Perm (P.boxes ++ P.closed) := by
    refine (hr.append_right _).trans ((hc.append_left _).trans ?_)
    exact List.perm_middle.trans (hb.symm.append_right _)
  have hever : (everQueued { P with boxes := boxes, closed := closed }).Perm P.everQueued := hall.flatMap_right _
  refine ⟨_, hrelease, ?_, ?_, fun a ha => h.lt a (hever.mem_iff.1 ha), ?_, ?_, ?_, ?_⟩
  · refine List.Perm.trans ?_ h.once
    rw [List.perm_iff_count]
    intro a
    have h₁ := (hb.flatMap_right Outbox.held).count_eq a
    have h₂ := hheld.count_eq a
    have h₃ := (hr.flatMap_right Outbox.held).count_eq a
    simp only [places, List.flatMap_cons, List.count_append] at h₁ h₂ h₃ ⊢
    omega
  · exact (hever.append_left _).nodup_iff.2 h.single
  · intro a ha
    have hnot : a ∉ released := fun hm => (h.waits ha).2 o ho (hrel a hm)
    simp only [if_neg hnot]
    exact h.waiting a ha
  · intro a ha
    rcases List.mem_append.1 ha with ha | ha
    · have hnot : a ∉ released := fun hm => h.stale_held ha o ho (hrel a hm)
      simp only [if_neg hnot]
      exact h.stale a ha
    · have hnot : a ∉ released := fun hm => (List.nodup_append.1 hnodup).2.2 a hm a ha rfl
      simp only [if_neg hnot]
      exact hsends.isSome a (hkept a ha)
  · intro o' ho'
    have ho₀ : o' ∈ rest := hr.mem_iff.1 ho'
    obtain ⟨done', left', off', hsends', hdone'⟩ := h.boxes o' (hb.mem_iff.2 (List.mem_cons_of_mem _ ho₀))
    refine ⟨done', left', off', hsends'.congr (fun _ _ => rfl) fun a ha => if_neg fun hm => ?_, fun a ha =>
      List.mem_append_left _ (hdone' a ha)⟩
    exact (h.apart hb (hrel a hm)).2.2 o' ho₀ ha
  · intro o' ho'
    rcases List.mem_cons.1 (hc.mem_iff.1 ho') with rfl | ho'
    · obtain ⟨part, hqueued, hwire, hprefix, hlt⟩ := hsends.part
      refine ⟨⟨done, o'.held, hqueued, part, hwire, hprefix, hlt⟩, fun a ha => ?_⟩
      rw [hqueued] at ha
      rcases List.mem_append.1 ha with ha | ha
      · exact List.mem_append_right _ (List.mem_append_left _ (hdone a ha))
      · rcases List.mem_append.1 (hheld.mem_iff.1 ha) with ha | ha
        · exact List.mem_append_right _ (List.mem_append_right _ ha)
        · exact List.mem_append_left _ (List.mem_append_right _ ha)
    · obtain ⟨hwrote, hall⟩ := h.closed o' ho'
      refine ⟨hwrote, fun a ha => ?_⟩
      rcases List.mem_append.1 (hall a ha) with ha | ha
      · exact List.mem_append_left _ (List.mem_append_left _ ha)
      · exact List.mem_append_right _ (List.mem_append_left _ ha)

end Post

end BeehiveIm.Rtmq

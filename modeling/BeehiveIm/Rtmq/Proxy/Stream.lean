/-
Where a message of the C proxy of RTMQ is, over every run: in a queue, with one connection, left
over from one that has ended, or released. What goes out on a connection are the messages put there,
whole and in order, the request for authentication first; none goes out on two connections.
-/
import BeehiveIm.Lib.Run
import BeehiveIm.Rtmq.Outbox.Post
import BeehiveIm.Rtmq.Proxy.Tsvr

namespace BeehiveIm.Rtmq

open BeehiveIm.Lib BeehiveIm.Core

/-! ## Rings side by side -/

section Rings

variable {α : Type} [DecidableEq α] {qs : List (List α)} {q : List α} {i : Nat}

theorem count_flatten_set (h : qs[i]? = some q) (q' : List α) (a : α) :
    (qs.set i q').flatten.count a + q.count a = qs.flatten.count a + q'.count a := by
  induction qs generalizing i with
  | nil => simp at h
  | cons p qs ih =>
    cases i with
    | zero =>
      obtain rfl : p = q := by simpa using h
      simp only [List.set_cons_zero, List.flatten_cons, List.count_append]
      omega
    | succ i =>
      have hrest := ih (i := i) (by simpa using h)
      simp only [List.set_cons_succ, List.flatten_cons, List.count_append]
      omega

theorem count_flatten_push (hi : i < qs.length) (a b : α) :
    (qs.modify i fun q => q ++ [b]).flatten.count a = qs.flatten.count a + [b].count a := by
  have hset := count_flatten_set (List.getElem?_eq_getElem hi) (qs[i] ++ [b]) a
  have hmodify : (qs.modify i fun q => q ++ [b]) = qs.set i (qs[i] ++ [b]) := by
    rw [List.modify_eq_set, List.getElem?_eq_getElem hi]
    rfl
  rw [hmodify]
  rw [List.count_append] at hset
  omega

end Rings

/-! ## What the run keeps -/

/-- The outbox of the connection, where there is one. -/
def Tsvr.boxes (x : Tsvr) : List Outbox := if x.isOpen then [x.out] else []

/-- What is left in the list of a connection that has ended. -/
def Tsvr.stale (x : Tsvr) : List Nat := if x.isOpen then [] else x.out.mesgList

/-- Nothing but the list is left of a connection that has ended; a queue is looked at only when the
list is empty, or the buffer is full. -/
structure Tsvr.Kept (x : Tsvr) : Prop where
  ended : x.isOpen = false → x.sending = false ∧ { x.out with mesgList := [] }.Fresh
  taken : x.sending = true → x.out.mesgList = [] ∨ x.out.send.wiovIsfull = true

/-- Some of the messages that go into the buffer with their length, those that the proxy
makes itself among them. -/
structure TsvrConf.Sends (conf : TsvrConf) (good : Mesg → Prop) : Prop where
  fits : ∀ m, good m → m.Fits proxyLen
  auth : good conf.authReq
  sub : ∀ type, good (conf.subReq type)
  kpalive : good conf.kpaliveReq

/-- The first message put into an outbox is the request for authentication. -/
def TsvrConf.Greets (conf : TsvrConf) (made : List Mesg) (o : Outbox) : Prop :=
  ∃ a rest, o.queued = a :: rest ∧ made[a]? = some conf.authReq

/-- What is sent is one of the messages that are to be sent. -/
def TsvrEvent.Ok (conf : TsvrConf) (good : Mesg → Prop) : TsvrEvent → Prop
  | .asyncSend type data _ _ => good ⟨type, conf.nid, RTMQ_EXP_MESG, data⟩
  | _ => True

/-- There is memory for the request for authentication. -/
def TsvrEvent.Greets : TsvrEvent → Prop
  | .reconn _ _ auth _ => auth = ⟨true, true⟩
  | _ => True

namespace ProxySend

/-- The messages of the proxy, while a thread has `hand` in its hand. -/
def post (S : ProxySend) (hand : List Nat) : Post where
  waiting := hand ++ S.sendq.flatten
  stale := S.tsvrs.flatMap Tsvr.stale
  boxes := S.tsvrs.flatMap Tsvr.boxes
  closed := S.tsvrs.flatMap Tsvr.past
  mem := S.mem
  made := S.made
  freed := S.freed

/-- The invariant, while a thread has the messages `hand` in its hand. Where `greets` holds there
was always memory for the request for authentication. -/
structure Inv (conf : TsvrConf) (good : Mesg → Prop) (greets : Prop) (S : ProxySend) (hand : List Nat) : Prop where
  post : (S.post hand).Inv proxyLen
  kept : ∀ x ∈ S.tsvrs, x.Kept
  greeted : greets → ∀ x ∈ S.tsvrs, ∀ o ∈ x.past ++ x.boxes, conf.Greets S.made o
  made : ∀ m ∈ S.made, good m
  sendq : S.sendq.length = conf.sendThdNum

variable {conf : TsvrConf} {good : Mesg → Prop} {greets : Prop} {S S' : ProxySend} {hand hand' : List Nat}
variable {x y : Tsvr} {t a : Nat} {m : Mesg} {o : Outbox}

theorem init_inv (conf : TsvrConf) (good : Mesg → Prop) (greets : Prop) : Inv conf good greets (init conf) [] where
  post := by
    have hnone : ∀ x ∈ (init conf).tsvrs, x.stale = [] ∧ x.boxes = [] ∧ x.past = [] := by
      intro x hx
      obtain ⟨idx, -, rfl⟩ := List.mem_map.1 hx
      exact ⟨rfl, rfl, rfl⟩
    have hpost : (init conf).post [] = ⟨[], [], [], [], fun _ => none, [], []⟩ := by
      have hsendq : (init conf).sendq.flatten = [] := by simp [init]
      rw [ProxySend.post, hsendq, List.flatMap_eq_nil_iff.2 fun x hx => (hnone x hx).1,
        List.flatMap_eq_nil_iff.2 fun x hx => (hnone x hx).2.1, List.flatMap_eq_nil_iff.2 fun x hx => (hnone x hx).2.2]
      rfl
    rw [hpost]
    exact Post.init_inv proxyLen
  kept x hx := by
    obtain ⟨idx, -, rfl⟩ := List.mem_map.1 hx
    exact ⟨fun _ => ⟨rfl, Outbox.init_fresh _⟩, fun hs => by cases hs⟩
  greeted _ x hx o ho := by
    obtain ⟨idx, -, rfl⟩ := List.mem_map.1 hx
    cases ho
  made _ hm := by cases hm
  sendq := List.length_replicate

/-! ## The connections -/

theorem perm_at (hx : S.tsvrs[t]? = some x) : S.tsvrs.Perm (x :: S.tsvrs.eraseIdx t) := by
  obtain ⟨ht, rfl⟩ := List.getElem?_eq_some_iff.1 hx
  exact (List.getElem_cons_eraseIdx_perm ht).symm

theorem perm_set (hx : S.tsvrs[t]? = some x) (y : Tsvr) : (S.tsvrs.set t y).Perm (y :: S.tsvrs.eraseIdx t) := by
  obtain ⟨ht, -⟩ := List.getElem?_eq_some_iff.1 hx
  exact List.set_perm_cons_eraseIdx ht y

theorem modify_at (hx : S.tsvrs[t]? = some x) (g : Tsvr → Tsvr) : S.tsvrs.modify t g = S.tsvrs.set t (g x) := by
  rw [List.modify_eq_set_getElem?, hx]
  rfl

theorem get_set (hx : S.tsvrs[t]? = some x) (y : Tsvr) : (S.tsvrs.set t y)[t]? = some y := by
  obtain ⟨ht, -⟩ := List.getElem?_eq_some_iff.1 hx
  rw [List.getElem?_set_self ht]

/-- What all connections have, with one of them apart. -/
theorem perm_flatMap {α : Type} {xs ys : List Tsvr} (h : xs.Perm (x :: ys)) (g : Tsvr → List α) :
    (xs.flatMap g).Perm (g x ++ ys.flatMap g) := by
  have := h.flatMap_right g
  rwa [List.flatMap_cons] at this

/-- One connection changes, and what is held with it. -/
theorem Inv.put (h : S.Inv conf good greets hand) (y : Tsvr) (htsvrs : S'.tsvrs = S.tsvrs.set t y)
    (hmade : S'.made = S.made) (hsendq : S'.sendq.length = S.sendq.length) (hpost : (S'.post hand').Inv proxyLen)
    (hkept : y.Kept) (hgreeted : greets → ∀ o ∈ y.past ++ y.boxes, conf.Greets S.made o) :
    S'.Inv conf good greets hand' := by
  refine ⟨hpost, fun x hx => ?_, fun hg x hx => ?_, by rw [hmade]; exact h.made, hsendq.trans h.sendq⟩
  · rw [htsvrs] at hx
    rcases List.mem_or_eq_of_mem_set hx with hx | rfl
    · exact h.kept x hx
    · exact hkept
  · rw [htsvrs] at hx
    rw [hmade]
    rcases List.mem_or_eq_of_mem_set hx with hx | rfl
    · exact h.greeted hg x hx
    · exact hgreeted hg

/-- The same, with the messages where they were but for the outbox of the connection. -/
theorem post_put (hand' : List Nat) (hx : S.tsvrs[t]? = some x) (htsvrs : S'.tsvrs = S.tsvrs.set t y) (hstale : y.stale = x.stale)
    (hpast : y.past = x.past) {len : BitVec 32 → Nat}
    (h : Post.Inv len { S'.post hand with
      stale := (S.post hand').stale
      boxes := y.boxes ++ (S.tsvrs.eraseIdx t).flatMap Tsvr.boxes
      closed := (S.post hand').closed }) : (S'.post hand).Inv len := by
  have hset := perm_set hx y
  have hat := perm_at hx
  refine h.perm (.refl _) ?_ ?_ ?_
  · rw [ProxySend.post, htsvrs]
    refine (perm_flatMap hset Tsvr.stale).trans ?_
    rw [hstale]
    exact (perm_flatMap hat Tsvr.stale).symm
  · rw [ProxySend.post, htsvrs]
    exact perm_flatMap hset Tsvr.boxes
  · rw [ProxySend.post, htsvrs]
    refine (perm_flatMap hset Tsvr.past).trans ?_
    rw [hpast]
    exact (perm_flatMap hat Tsvr.past).symm

/-- The outboxes, with that of a connection apart. -/
theorem boxes_at (hand : List Nat) (hx : S.tsvrs[t]? = some x) (hopen : x.isOpen = true) :
    (S.post hand).boxes.Perm (x.out :: (S.tsvrs.eraseIdx t).flatMap Tsvr.boxes) := by
  have hboxes := perm_flatMap (perm_at hx) Tsvr.boxes
  rwa [Tsvr.boxes, if_pos hopen] at hboxes

/-! ## Messages -/

/-- A message is made. -/
theorem Inv.alloc (h : S.Inv conf good greets hand) (hgood : conf.Sends good) (hm : good m) :
    (S.alloc m).Inv conf good greets (S.made.length :: hand) := by
  refine ⟨h.post.alloc (hgood.fits m hm), h.kept, fun hg x hx o ho => ?_, fun m' hm' => ?_, h.sendq⟩
  swap
  · rcases List.mem_append.1 hm' with hm' | hm'
    · exact h.made m' hm'
    · obtain rfl := List.mem_singleton.1 hm'
      exact hm
  obtain ⟨a, rest, hqueued, ha⟩ := h.greeted hg x hx o ho
  refine ⟨a, rest, hqueued, ?_⟩
  exact (List.getElem?_append_left (List.getElem?_eq_some_iff.1 ha).1).trans ha

/-- A message in the hand is released. -/
theorem Inv.free (h : S.Inv conf good greets (a :: hand)) :
    ∃ S', S.free [a] = some S' ∧ S'.Inv conf good greets hand := by
  have hwaiting : ((S.post (a :: hand)).waiting ++ (S.post (a :: hand)).stale).Perm
      ([a] ++ ((hand ++ S.sendq.flatten) ++ (S.post (a :: hand)).stale)) := .refl _
  obtain ⟨mem, hrelease, hpost⟩ := h.post.release hwaiting (List.sublist_cons_self _ _) fun _ ha => ha
  have hrelease : releaseAll S.mem [a] = some mem := hrelease
  refine ⟨{ S with mem := mem, freed := S.freed ++ [a] }, ?_, hpost, h.kept, h.greeted, h.made, h.sendq⟩
  rw [ProxySend.free, hrelease]
  rfl

/-- Messages move between the hand and the queues. -/
theorem Inv.requeue (h : S.Inv conf good greets hand) {sendq : List (List Nat)}
    (hperm : (hand' ++ sendq.flatten).Perm (hand ++ S.sendq.flatten)) (hsendq : sendq.length = S.sendq.length) :
    Inv conf good greets { S with sendq := sendq } hand' :=
  ⟨h.post.perm hperm (.refl _) (.refl _) (.refl _), h.kept, h.greeted, h.made, hsendq.trans h.sendq⟩

/-- A message in the hand is put into the list of a connection. -/
theorem Inv.push (h : S.Inv conf good greets (a :: hand)) (hx : S.tsvrs[t]? = some x) (hopen : x.isOpen = true)
    (hs : x.sending = false) (hy : y = { x with out := x.out.push a }) : (S.setTsvr t y).Inv conf good greets hand := by
  subst hy
  refine h.put { x with out := x.out.push a } rfl rfl rfl ?_ ⟨fun hc => ?_, fun hs' => ?_⟩ ?_
  · refine post_put (a :: hand) (y := { x with out := x.out.push a }) hx rfl ?_ rfl ?_
    · simp [Tsvr.stale, hopen]
    · have hboxes : Tsvr.boxes { x with out := x.out.push a } = [x.out.push a] := if_pos hopen
      rw [hboxes]
      exact h.post.push rfl (boxes_at _ hx hopen) (.refl _)
  · cases hopen.symm.trans hc
  · cases hs.symm.trans hs'
  · intro hg o ho
    have hat := List.mem_of_getElem? hx
    rw [Tsvr.boxes, if_pos hopen] at ho
    rcases List.mem_append.1 ho with ho | ho
    · exact h.greeted hg x hat o (List.mem_append_left _ ho)
    · obtain rfl := List.mem_singleton.1 ho
      obtain ⟨b, rest, hqueued, hb⟩ := h.greeted hg x hat x.out (by simp [Tsvr.boxes, hopen])
      exact ⟨b, rest ++ [a], by simp [Outbox.push, hqueued], hb⟩

/-! ## The steps -/

/-- A message is made and put into the list of a connection. -/
theorem Inv.putMesg (h : S.Inv conf good greets []) (hgood : conf.Sends good) (hm : good m)
    (hx : S.tsvrs[t]? = some x) (hopen : x.isOpen = true) (hs : x.sending = false) (room : Room) :
    ∃ S' ok y, S.putMesg t m room = some (S', ok) ∧ S'.Inv conf good greets [] ∧ S'.tsvrs[t]? = some y ∧
      y.isOpen = true ∧ y.sending = false := by
  obtain ⟨mem, place⟩ := room
  rw [ProxySend.putMesg]
  cases mem with
  | false => exact ⟨S, false, x, rfl, h, hx, hopen, hs⟩
  | true =>
    have halloc := h.alloc hgood hm
    cases place with
    | false =>
      obtain ⟨S', hfree, h'⟩ := halloc.free
      have htsvrs : S'.tsvrs = S.tsvrs := by
        rw [ProxySend.free] at hfree
        obtain ⟨mem, -, rfl⟩ := Option.map_eq_some_iff.1 hfree
        rfl
      exact ⟨S', false, x, by simp [hfree], h', by rw [htsvrs, hx], hopen, hs⟩
    | true =>
      let y : Tsvr := { x with out := x.out.push S.made.length }
      have hpush : ((S.alloc m).setTsvr t y).Inv conf good greets [] := halloc.push hx hopen hs rfl
      refine ⟨_, true, y, rfl, ?_, ?_, hopen, hs⟩
      · rw [modify_at (S := S.alloc m) hx]
        exact hpush
      · rw [modify_at (S := S.alloc m) hx]
        exact get_set (S := S.alloc m) hx y

/-- What is left in the list of a connection that has ended is released. -/
theorem Inv.clearMesg (h : S.Inv conf good greets []) (hx : S.tsvrs[t]? = some x) (hopen : x.isOpen = false) :
    ∃ S' y, S.rtmqProxyTsvrClearMesg t x = some S' ∧ S'.Inv conf good greets [] ∧ S'.tsvrs[t]? = some y ∧
      y.isOpen = false ∧ y.sending = false ∧ y.out.Fresh := by
  let y : Tsvr := { x with out := { x.out with mesgList := [] } }
  obtain ⟨hs, hfresh⟩ := (h.kept x (List.mem_of_getElem? hx)).ended hopen
  have hat := perm_at hx
  have hset := perm_set hx y
  have hstale := perm_flatMap hat Tsvr.stale
  have hlist : x.stale = x.out.mesgList := by
    rw [Tsvr.stale, hopen]
    rfl
  rw [hlist] at hstale
  have hwaiting : ((S.post []).waiting ++ (S.post []).stale).Perm
      (x.out.mesgList ++ ((S.post []).waiting ++ (S.tsvrs.eraseIdx t).flatMap Tsvr.stale)) := by
    refine (hstale.append_left _).trans ?_
    rw [← List.append_assoc, ← List.append_assoc]
    exact List.perm_append_comm.append_right _
  obtain ⟨mem, hrelease, hpost⟩ := h.post.release hwaiting (List.Sublist.refl _) fun a ha =>
    hstale.mem_iff.2 (List.mem_append_right _ ha)
  have hrelease : releaseAll S.mem x.out.mesgList = some mem := hrelease
  refine ⟨{ S with mem := mem, freed := S.freed ++ x.out.mesgList }.setTsvr t y, y, ?_, ?_, get_set hx y, hopen,
    hs, hfresh⟩
  · rw [rtmqProxyTsvrClearMesg, ProxySend.free, hrelease]
    rfl
  · have hboxes : y.boxes = x.boxes := by simp [Tsvr.boxes, hopen, y]
    refine h.put y rfl rfl rfl (hpost.perm (.refl _) ?_ ?_ ?_) ⟨fun _ => ⟨hs, hfresh⟩, fun _ => .inl rfl⟩ fun hg => ?_
    · have hnone : y.stale = [] := by simp [Tsvr.stale, hopen, y]
      have := perm_flatMap hset Tsvr.stale
      rwa [hnone] at this
    · refine (perm_flatMap hset Tsvr.boxes).trans ?_
      rw [hboxes]
      exact (perm_flatMap hat Tsvr.boxes).symm
    · exact (perm_flatMap hset Tsvr.past).trans (perm_flatMap hat Tsvr.past).symm
    · rw [hboxes]
      exact h.greeted hg x (List.mem_of_getElem? hx)

/-- The types registered are put there one after the other. -/
theorem Inv.subReqs (hgood : conf.Sends good) (subs : List (BitVec 32 × Room)) : ∀ {S : ProxySend} {x : Tsvr},
    S.Inv conf good greets [] → S.tsvrs[t]? = some x → x.isOpen = true → x.sending = false →
    ∃ S', subs.foldlM (fun S sub => (S.putMesg t (conf.subReq sub.1) sub.2).map Prod.fst) S = some S' ∧
      S'.Inv conf good greets [] := by
  induction subs with
  | nil => exact fun h _ _ _ => ⟨_, rfl, h⟩
  | cons sub subs ih =>
    intro S x h hx hopen hs
    obtain ⟨S₁, ok, y, hput, h₁, hy, hopen₁, hs₁⟩ := h.putMesg hgood (hgood.sub sub.1) hx hopen hs sub.2
    rw [List.foldlM_cons, hput]
    exact ih h₁ hy hopen₁ hs₁

/-- A connection is there, and nothing has been put there yet. -/
theorem Inv.opened (h : S.Inv conf good greets []) (hx : S.tsvrs[t]? = some x) (hopen : x.isOpen = false)
    (hs : x.sending = false) (hfresh : x.out.Fresh) :
    (S.setTsvr t { x with isOpen := true, kpalive := .unknown }).Inv conf good False [] := by
  let y : Tsvr := { x with isOpen := true, kpalive := .unknown }
  have hnone : x.stale = [] := by simp [Tsvr.stale, hopen, hfresh.mesgList]
  have hboxes := perm_flatMap (perm_at hx) Tsvr.boxes
  have hno : x.boxes = [] := by simp [Tsvr.boxes, hopen]
  rw [hno, List.nil_append] at hboxes
  have hpost := h.post.fresh hfresh
  refine Inv.put { h with greeted := False.elim } y rfl rfl rfl ?_ ⟨fun hc => ?_, fun hs' => ?_⟩ False.elim
  · refine post_put [] (y := y) hx rfl ?_ rfl ?_
    · rw [hnone]
      rfl
    · exact hpost.perm (.refl _) (.refl _) (hboxes.symm.cons _) (.refl _)
  · cases hc
  · cases hs.symm.trans hs'

/-- The request for authentication is the first message. -/
theorem greeted_auth (h : S.Inv conf good greets []) (hg : greets) (hx : S.tsvrs[t]? = some x) (hfresh : x.out.Fresh)
    {y : Tsvr} (hy : y.out = x.out.push S.made.length) (hpast : y.past = x.past) :
    ∀ z ∈ S.tsvrs.set t y, ∀ o ∈ z.past ++ z.boxes, conf.Greets (S.made ++ [conf.authReq]) o := by
  have hmade {o : Outbox} (ho : conf.Greets S.made o) : conf.Greets (S.made ++ [conf.authReq]) o := by
    obtain ⟨a, rest, hqueued, ha⟩ := ho
    exact ⟨a, rest, hqueued, (List.getElem?_append_left (List.getElem?_eq_some_iff.1 ha).1).trans ha⟩
  have hat := List.mem_of_getElem? hx
  intro z hz o ho
  rcases List.mem_or_eq_of_mem_set hz with hz | rfl
  · exact hmade (h.greeted hg z hz o ho)
  · rcases List.mem_append.1 ho with ho | ho
    · rw [hpast] at ho
      exact hmade (h.greeted hg x hat o (List.mem_append_left _ ho))
    · obtain rfl : o = x.out.push S.made.length := by
        rw [Tsvr.boxes, hy] at ho
        split at ho
        · exact List.mem_singleton.1 ho
        · cases ho
      exact ⟨S.made.length, [], by simp [Outbox.push, hfresh.queued], by simp⟩

theorem Inv.reconn (h : S.Inv conf good greets []) (hgood : conf.Sends good) (hx : S.tsvrs[t]? = some x)
    (hopen : x.isOpen = false) (hs : x.sending = false) (hfresh : x.out.Fresh) (ok : Bool) {auth : Room}
    (hauth : greets → auth = ⟨true, true⟩) (subs : List (BitVec 32 × Room)) :
    ∃ S', S.rtmqProxyTsvrReconn conf t ok auth subs = some S' ∧ S'.Inv conf good greets [] := by
  rw [rtmqProxyTsvrReconn]
  cases ok with
  | false => exact ⟨S, rfl, h⟩
  | true =>
    let y : Tsvr := { x with isOpen := true, kpalive := .unknown }
    have h₁ : (S.setTsvr t y).Inv conf good False [] := h.opened hx hopen hs hfresh
    have hy := get_set hx y
    obtain ⟨S₂, ok, z, hput, h₂, hz, hopen₂, hs₂⟩ := h₁.putMesg hgood hgood.auth hy rfl hs auth
    have hgreeted : greets → ∀ x ∈ S₂.tsvrs, ∀ o ∈ x.past ++ x.boxes, conf.Greets S₂.made o := by
      intro hg
      rw [hauth hg] at hput
      cases hput
      simp only [modify_at (S := (S.setTsvr t y).alloc conf.authReq) hy]
      simp only [setTsvr, ProxySend.alloc, List.set_set]
      exact greeted_auth h hg hx hfresh rfl rfl
    rw [if_neg (by simp)]
    simp only [modify_at hx]
    have hput : ProxySend.putMesg t { S with tsvrs := S.tsvrs.set t y } conf.authReq auth = some (S₂, ok) := hput
    rw [hput]
    exact Inv.subReqs hgood subs { h₂ with greeted := hgreeted } hz hopen₂ hs₂

/-- A connection ends: what is in the buffer is released, the list is left. -/
theorem Inv.delConn (h : S.Inv conf good greets []) (hx : S.tsvrs[t]? = some x) (hopen : x.isOpen = true) :
    ∃ S', S.rtmqProxyTsvrDelConn t x = some S' ∧ S'.Inv conf good greets [] := by
  have hat := perm_at hx
  have hb := boxes_at [] hx hopen
  obtain ⟨done, left, off, hsends, -⟩ := h.post.boxes x.out (hb.mem_iff.2 List.mem_cons_self)
  have hclean : x.out.send.wiovClean.2.map calledAddr = wiovAddrs x.out.send := by
    rw [hsends.holds.clean, holds_addrs hsends.holds, List.map_map]
    rfl
  let y : Tsvr :=
    { x with isOpen := false, sending := false, out := ⟨x.out.mesgList, x.out.send.wiovClean.1, [], []⟩,
             past := x.past ++ [x.out] }
  have hset := perm_set hx y
  have hclosed : (x.out :: (S.post []).closed).Perm (x.out :: (S.post []).closed) := .refl _
  obtain ⟨mem, hrelease, hpost⟩ := h.post.close hb (.refl _) hclosed (.refl _)
  have hrelease : releaseAll S.mem (wiovAddrs x.out.send) = some mem := hrelease
  refine ⟨{ S with mem := mem, freed := S.freed ++ wiovAddrs x.out.send }.setTsvr t y, ?_, ?_⟩
  · rw [rtmqProxyTsvrDelConn, hclean, ProxySend.free, hrelease]
    rfl
  have hfresh : { y.out with mesgList := [] }.Fresh := by
    refine ⟨⟨rfl, Nat.zero_le _, fun _ _ he => by simp at he⟩, ?_, rfl, rfl, rfl⟩
    rw [Wiov.iovMax_clean]
    exact hsends.max
  refine h.put y rfl rfl rfl (hpost.perm (.refl _) ?_ ?_ ?_) ⟨fun _ => ⟨rfl, hfresh⟩, fun hs => by cases hs⟩ ?_
  · refine (perm_flatMap hset Tsvr.stale).trans (List.perm_append_comm.trans ?_)
    have hstale := perm_flatMap hat Tsvr.stale
    have hnone : x.stale = [] := by simp [Tsvr.stale, hopen]
    rw [hnone] at hstale
    exact hstale.symm.append_right _
  · exact perm_flatMap hset Tsvr.boxes
  · refine (perm_flatMap hset Tsvr.past).trans ?_
    refine List.Perm.trans ?_ ((perm_flatMap hat Tsvr.past).symm.cons _)
    exact List.perm_append_singleton x.out x.past |>.append_right _
  · intro hg o ho
    have hgreeted := h.greeted hg x (List.mem_of_getElem? hx)
    rw [Tsvr.boxes, if_pos hopen] at hgreeted
    exact hgreeted o (by simpa [y, Tsvr.boxes] using ho)

/-- Whether the peer answers is not about messages. -/
theorem Inv.setKpalive (h : S.Inv conf good greets []) (hx : S.tsvrs[t]? = some x) (stat : KpaliveStat) :
    (S.setTsvr t { x with kpalive := stat }).Inv conf good greets [] := by
  let y : Tsvr := { x with kpalive := stat }
  have hmem := List.mem_of_getElem? hx
  have hsame {α : Type} (g : Tsvr → List α) (hg : g y = g x) :
      ((S.tsvrs.set t y).flatMap g).Perm (S.tsvrs.flatMap g) := by
    refine (perm_flatMap (perm_set hx y) g).trans ?_
    rw [hg]
    exact (perm_flatMap (perm_at hx) g).symm
  refine h.put y rfl rfl rfl ?_ ⟨(h.kept x hmem).ended, (h.kept x hmem).taken⟩ fun hg => h.greeted hg x hmem
  exact h.post.perm (.refl _) (hsame _ rfl) (hsame _ rfl) (hsame _ rfl)

theorem Inv.kpaliveReq (h : S.Inv conf good greets []) (hgood : conf.Sends good) (hx : S.tsvrs[t]? = some x)
    (hopen : x.isOpen = true) (hs : x.sending = false) (room : Room) :
    ∃ S', S.rtmqProxyTsvrKpaliveReq conf t x room = some S' ∧ S'.Inv conf good greets [] := by
  rw [rtmqProxyTsvrKpaliveReq]
  split
  · exact h.delConn hx hopen
  · obtain ⟨S₁, ok, y, hput, h₁, hy, -⟩ := h.putMesg hgood hgood.kpalive hx hopen hs room
    rw [hput]
    cases ok with
    | false => exact ⟨S₁, rfl, h₁⟩
    | true =>
      refine ⟨_, rfl, ?_⟩
      simp only [modify_at hy]
      exact h₁.setKpalive hy .sent

/-- The list is empty after that, or the buffer is full. -/
theorem wiovFill_taken (len : BitVec 32 → Nat) (mesgList : List Nat) : ∀ {mem mem' : Heap} {W W' : Wiov}
    {mesgList' : List Nat}, wiovFill len mesgList mem W = some (mesgList', mem', W') →
    mesgList' = [] ∨ W'.wiovIsfull = true := by
  induction mesgList with
  | nil =>
    intro mem mem' W W' mesgList' hfill
    cases hfill
    exact .inl rfl
  | cons addr mesgList ih =>
    intro mem mem' W W' mesgList' hfill
    rw [wiovFill] at hfill
    split at hfill
    · rename_i hfull
      cases hfill
      exact .inr hfull
    · obtain ⟨⟨mem₁, W₁⟩, -, hrest⟩ := Option.bind_eq_some_iff.1 hfill
      exact ih hrest

/-- The outbox of a connection changes, and memory with it; messages may come from the
queues or be released. -/
theorem Inv.setOut (h : S.Inv conf good greets []) (hx : S.tsvrs[t]? = some x) (hopen : x.isOpen = true)
    {sendq : List (List Nat)} {mem : Heap} {freed : List Nat} {sending : Bool}
    (hsendq : sendq.length = S.sendq.length) (hqueued : x.out.queued <+: o.queued)
    (htaken : sending = true → o.mesgList = [] ∨ o.send.wiovIsfull = true)
    (hpost : Post.Inv proxyLen { S.post [] with
      waiting := sendq.flatten
      boxes := o :: (S.tsvrs.eraseIdx t).flatMap Tsvr.boxes
      mem := mem
      freed := freed }) :
    ({ S with sendq := sendq, mem := mem, freed := freed }.setTsvr t { x with out := o, sending := sending }).Inv
      conf good greets [] := by
  let y : Tsvr := { x with out := o, sending := sending }
  have hmem := List.mem_of_getElem? hx
  refine h.put y rfl rfl hsendq ?_ ⟨fun hc => ?_, htaken⟩ fun hg o' ho => ?_
  · refine post_put [] (y := y) hx rfl ?_ rfl ?_
    · simp [Tsvr.stale, hopen, y]
    · have hboxes : y.boxes = [o] := if_pos hopen
      rw [hboxes]
      exact hpost
  · cases hopen.symm.trans hc
  · have hgreeted := h.greeted hg x hmem
    rcases List.mem_append.1 ho with ho | ho
    · exact hgreeted o' (List.mem_append_left _ ho)
    · have hboxes : y.boxes = [o] := if_pos hopen
      rw [hboxes] at ho
      obtain rfl := List.mem_singleton.1 ho
      obtain ⟨a, more, hfirst, ha⟩ := hgreeted x.out (by simp [Tsvr.boxes, hopen])
      obtain ⟨rest, hrest⟩ := hqueued
      exact ⟨a, more ++ rest, by rw [← hrest, hfirst, List.cons_append], ha⟩

theorem Inv.sendData (h : S.Inv conf good greets []) (hx : S.tsvrs[t]? = some x) (hopen : x.isOpen = true) :
    ∃ S', S.rtmqProxyTsvrSendData t x = some S' ∧ S'.Inv conf good greets [] := by
  have hb := boxes_at [] hx hopen
  rw [rtmqProxyTsvrSendData]
  split
  · rename_i hfull
    refine ⟨_, rfl, h.setOut hx hopen rfl List.prefix_rfl (fun _ => .inr hfull) ?_⟩
    exact h.post.perm (.refl _) (.refl _) hb.symm (.refl _)
  · obtain ⟨o, mem, hadd, hqueued, hpost⟩ := h.post.wiovAdd hb
    have hadd : x.out.wiovAdd proxyLen S.mem = some (o, mem) := hadd
    rw [hadd]
    have htaken : o.mesgList = [] ∨ o.send.wiovIsfull = true := by
      rw [Outbox.wiovAdd] at hadd
      obtain ⟨⟨mesgList, mem', send⟩, hfill, heq⟩ := Option.map_eq_some_iff.1 hadd
      cases heq
      exact wiovFill_taken _ _ hfill
    refine ⟨_, rfl, h.setOut hx hopen rfl ?_ (fun _ => htaken) (hpost _ (.refl _))⟩
    rw [hqueued]

/-- What is taken out of a queue goes into a buffer that has the places for it. -/
theorem wiovTake_spec (data : List Nat) : ∀ {P : Post} {o : Outbox} {rest : List Outbox} {waiting : List Nat},
    P.Inv proxyLen → P.waiting = data ++ waiting → P.boxes.Perm (o :: rest) →
    (o.mesgList = [] ∨ o.send.wiovIsfull = true) → data.length ≤ o.send.iovMax - o.send.iovCnt →
    ∃ o' mem, wiovTake data o P.mem = some (o', mem) ∧ (o'.mesgList = [] ∨ o'.send.wiovIsfull = true) ∧
      o.queued <+: o'.queued ∧ Post.Inv proxyLen { P with waiting := waiting, boxes := o' :: rest, mem := mem } := by
  induction data with
  | nil =>
    intro P o rest waiting h hw hb htaken _
    refine ⟨o, P.mem, rfl, htaken, List.prefix_rfl, ?_⟩
    exact h.perm (.of_eq hw.symm) (.refl _) hb.symm (.refl _)
  | cons a data ih =>
    intro P o rest waiting h hw hb htaken hle
    rw [List.length_cons] at hle
    have hfull : o.send.wiovIsfull = false := by
      rw [Wiov.wiovIsfull, decide_eq_false_iff_not]
      omega
    have hlist : o.mesgList = [] := by
      rcases htaken with hnil | hfull'
      · exact hnil
      · cases hfull.symm.trans hfull'
    obtain ⟨mem, W, hload, hpost⟩ := h.load hw hb hlist hfull 1
    have hcnt : W.iovMax = o.send.iovMax ∧ W.iovCnt = o.send.iovCnt + 1 := by
      rw [wiovLoad] at hload
      obtain ⟨bytes, -, hload⟩ := Option.bind_eq_some_iff.1 hload
      split at hload
      · cases hload
      · obtain ⟨W', hadd, heq⟩ := Option.map_eq_some_iff.1 hload
        cases heq
        rw [Wiov.wiovItemAdd] at hadd
        split at hadd
        · cases hadd
          exact ⟨rfl, rfl⟩
        · cases hadd
    have hle' : data.length ≤ W.iovMax - W.iovCnt := by
      rw [hcnt.1, hcnt.2]
      omega
    obtain ⟨o', mem', htake, htaken', hqueued, hpost'⟩ := ih (hpost _ (.refl _)) rfl (.refl _) (.inl hlist) hle'
    refine ⟨o', mem', ?_, htaken', ?_, hpost'⟩
    · rw [wiovTake, hload]
      exact htake
    · exact (List.prefix_append o.queued [a]).trans hqueued

theorem Inv.mpop (h : S.Inv conf good greets []) (hx : S.tsvrs[t]? = some x) (hopen : x.isOpen = true)
    (hs : x.sending = true) (num : Nat) : ∃ S', S.rtmqProxyTsvrMpop t x num = some S' ∧ S'.Inv conf good greets [] := by
  rw [rtmqProxyTsvrMpop]
  split
  · exact ⟨S, rfl, h⟩
  rename_i q hq
  have hb := boxes_at [] hx hopen
  have htaken := (h.kept x (List.mem_of_getElem? hx)).taken hs
  simp only
  generalize hnum : min (min (x.out.send.iovMax - x.out.send.iovCnt) RTSD_POP_NUM) num = k
  -- what is taken out waits before the rest
  have hwaiting : (q.take k ++ (S.sendq.set x.qid (q.drop k)).flatten).Perm (S.post []).waiting := by
    rw [List.perm_iff_count]
    intro b
    have hset := count_flatten_set hq (q.drop k) b
    have hsplit := congrArg (List.count b) (List.take_append_drop k q)
    simp only [ProxySend.post, List.nil_append, List.count_append] at hsplit ⊢
    omega
  have hlen : (q.take k).length ≤ x.out.send.iovMax - x.out.send.iovCnt := by
    rw [List.length_take]
    omega
  have hpost := h.post.perm hwaiting (.refl _) (.refl _) (.refl _)
  obtain ⟨o, mem, htake, htaken', hqueued, hpost'⟩ := wiovTake_spec (q.take k) hpost rfl hb htaken hlen
  have htake : wiovTake (q.take k) x.out S.mem = some (o, mem) := htake
  rw [htake]
  exact ⟨_, rfl, h.setOut hx hopen (List.length_set ..) hqueued (fun _ => htaken') hpost'⟩

theorem Inv.writev (h : S.Inv conf good greets []) (hx : S.tsvrs[t]? = some x) (hopen : x.isOpen = true)
    (n : Option Nat) : ∃ S', S.rtmqProxyTsvrWritev t x n = some S' ∧ S'.Inv conf good greets [] := by
  have hb := boxes_at [] hx hopen
  unfold rtmqProxyTsvrWritev
  split
  · refine ⟨_, rfl, h.setOut hx hopen rfl List.prefix_rfl (fun hs => by cases hs) ?_⟩
    exact h.post.perm (.refl _) (.refl _) hb.symm (.refl _)
  cases n with
  | none => exact h.delConn hx hopen
  | some n =>
    obtain ⟨o, mem, more, hwritev, hqueued, hpost⟩ := h.post.writev hb n
    have hwritev : x.out.writev S.mem n = some (o, mem, more) := hwritev
    simp only [hwritev, Option.map_some]
    refine ⟨_, rfl, h.setOut hx hopen rfl ?_ (fun hs => by cases hs) (hpost _ (.refl _))⟩
    rw [hqueued]

theorem Inv.asyncSend (h : S.Inv conf good greets []) (hgood : conf.Sends good) (hthd : 0 < conf.sendThdNum)
    {type : BitVec 32} {data : List Byte} (hm : good ⟨type, conf.nid, RTMQ_EXP_MESG, data⟩) (num : Nat)
    (room : Room) : ∃ S', S.rtmqProxyAsyncSend conf type data num room = some S' ∧ S'.Inv conf good greets [] := by
  obtain ⟨mem, place⟩ := room
  rw [rtmqProxyAsyncSend]
  cases mem with
  | false => exact ⟨S, rfl, h⟩
  | true =>
    have halloc := h.alloc hgood hm
    cases place with
    | false => exact halloc.free
    | true =>
      refine ⟨_, rfl, halloc.requeue ?_ (List.length_modify ..)⟩
      have hnum : num % conf.sendThdNum < S.sendq.length := by
        rw [h.sendq]
        exact Nat.mod_lt _ hthd
      rw [List.perm_iff_count]
      intro b
      have := count_flatten_push hnum b S.made.length
      simp only [ProxySend.alloc, List.nil_append, List.cons_append, List.count_cons, List.count_nil] at this ⊢
      omega

theorem Inv.onTsvr (h : S.Inv conf good greets []) {ok : Tsvr → Bool} {g : Tsvr → Option ProxySend}
    (hg : ∀ x, S.tsvrs[t]? = some x → ok x = true → ∃ S', g x = some S' ∧ S'.Inv conf good greets []) :
    ∃ S', S.onTsvr t ok g = some S' ∧ S'.Inv conf good greets [] := by
  rw [ProxySend.onTsvr]
  cases hx : S.tsvrs[t]? with
  | none => exact ⟨S, rfl, h⟩
  | some x =>
    rw [Option.elim_some]
    split
    · rename_i hok
      exact hg x hx hok
    · exact ⟨S, rfl, h⟩

theorem Inv.step (h : S.Inv conf good greets []) (hgood : conf.Sends good) (hthd : 0 < conf.sendThdNum) {e : TsvrEvent}
    (he : e.Ok conf good) (hg : greets → e.Greets) : ∃ S', S.step conf e = some S' ∧ S'.Inv conf good greets [] := by
  have hwaits (x : Tsvr) (hok : x.waits = true) : x.isOpen = true ∧ x.sending = false := by
    simpa [Tsvr.waits] using hok
  have hsends (x : Tsvr) (hok : x.sends = true) : x.isOpen = true ∧ x.sending = true := by
    simpa [Tsvr.sends] using hok
  cases e with
  | asyncSend type data num room => exact h.asyncSend hgood hthd he num room
  | reconn t ok auth subs =>
    refine h.onTsvr fun x hx hok => ?_
    obtain ⟨S₁, y, hclear, h₁, hy, hopen, hs, hfresh⟩ := h.clearMesg hx (by simpa [Tsvr.ended] using hok)
    rw [hclear]
    exact h₁.reconn hgood hy hopen hs hfresh ok hg subs
  | timeout t room =>
    refine h.onTsvr fun x hx hok => ?_
    obtain ⟨hopen, hs⟩ := hwaits x hok
    exact h.kpaliveReq hgood hx hopen hs room
  | kpaliveAck t => exact h.onTsvr fun x hx _ => ⟨_, rfl, h.setKpalive hx .succ⟩
  | recvFail t => exact h.onTsvr fun x hx hok => h.delConn hx (hwaits x hok).1
  | sendData t => exact h.onTsvr fun x hx hok => h.sendData hx (hwaits x hok).1
  | mpop t num =>
    refine h.onTsvr fun x hx hok => ?_
    obtain ⟨hopen, hs⟩ := hsends x hok
    exact h.mpop hx hopen hs num
  | writev t n => exact h.onTsvr fun x hx hok => h.writev hx (hsends x hok).1 n

/-- A run goes through to its end. -/
theorem run_inv (hgood : conf.Sends good) (hthd : 0 < conf.sendThdNum) {es : List TsvrEvent}
    (hes : ∀ e ∈ es, e.Ok conf good) :
    ∃ S, es.foldlM (ProxySend.step conf) (init conf) = some S ∧ S.Inv conf good (∀ e ∈ es, e.Greets) [] := by
  let greets := ∀ e ∈ es, e.Greets
  have hguarded : Guarded (fun S e => (ProxySend.step conf S e).getD S)
      (fun _ e => e.Ok conf good ∧ (greets → e.Greets)) (init conf) es :=
    (guarded_forall es (init conf)).2 fun e he => ⟨hes e he, fun hg => hg e he⟩
  exact run_invariant (ProxySend.step conf) (fun _ e => e.Ok conf good ∧ (greets → e.Greets))
    (fun S => S.Inv conf good greets []) (fun _ _ h he => h.step hgood hthd he.1 he.2) es (init conf)
    (init_inv conf good greets) hguarded

theorem length_authReq (conf : TsvrConf) : conf.authReq.data.length = 4 + (RTMQ_USR_MAX_LEN + RTMQ_PWD_MAX_LEN) := by
  simp only [TsvrConf.authReq, copyInto, List.length_append, length_beBytes, List.length_take]
  simp only [List.length_replicate]
  omega

/-- The messages whose length the header can say. -/
theorem sends_lengths (conf : TsvrConf) : conf.Sends fun m => m.data.length < 2 ^ 32 where
  fits _ hm := fits_proxyLen hm
  auth := by
    rw [length_authReq]
    decide
  sub type := by
    rw [TsvrConf.subReq, length_beBytes]
    decide
  kpalive := Nat.two_pow_pos 32

/-- Every run goes through to its end, with no assertion and no access to memory that is
released, and delivers. Where there was always memory for the request for authentication, every
connection begins with it. -/
theorem proxy_delivers (conf : TsvrConf) (hthd : 0 < conf.sendThdNum) (es : List TsvrEvent)
    (hes : ∀ e ∈ es, e.Ok conf fun m => m.data.length < 2 ^ 32) :
    ∃ S, es.foldlM (ProxySend.step conf) (init conf) = some S ∧ (S.post []).Delivers ∧
      ((∀ e ∈ es, e.Greets) → ∀ x ∈ S.tsvrs, ∀ o ∈ x.past ++ x.boxes, conf.Greets S.made o) := by
  obtain ⟨S, hrun, h⟩ := run_inv (sends_lengths conf) hthd hes
  exact ⟨S, hrun, h.post.delivers, h.greeted⟩

/-- One thread that sends to one server. -/
def oneServer : TsvrConf := ⟨1, 2, [3], [4], 1, 1, 4⟩

/-- A message goes out behind the requests, the next one when the connection has failed and come
back. -/
def comesBack : List TsvrEvent :=
  [.asyncSend 9 [5] 0 ⟨true, true⟩, .reconn 0 true ⟨true, true⟩ [(9, ⟨true, true⟩)], .sendData 0, .mpop 0 1,
    .writev 0 (some 200), .asyncSend 9 [6] 1 ⟨true, true⟩, .recvFail 0, .reconn 0 true ⟨true, true⟩ [], .sendData 0,
    .mpop 0 1, .writev 0 (some 30)]

theorem proxy_delivers_comesBack : ∃ S, comesBack.foldlM (ProxySend.step oneServer) (init oneServer) = some S ∧
    (S.post []).Delivers ∧ ((∀ e ∈ comesBack, e.Greets) → ∀ x ∈ S.tsvrs, ∀ o ∈ x.past ++ x.boxes,
      oneServer.Greets S.made o) := by
  refine proxy_delivers oneServer (by decide) comesBack fun e he => ?_
  simp only [comesBack, List.mem_cons, List.not_mem_nil, or_false] at he
  rcases he with rfl | rfl | rfl | rfl | rfl | rfl | rfl | rfl | rfl | rfl | rfl
  all_goals simp [TsvrEvent.Ok]

end ProxySend

end BeehiveIm.Rtmq

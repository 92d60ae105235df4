/-
What goes out on a connection is its items one after the other, and each item and its data are in
one place until they are freed. A pass ends the connection when a `write` fails, and also when the
socket blocks before it has taken anything of what is left of an item.
-/
import BeehiveIm.Access.Send
import BeehiveIm.Lib.Run

namespace BeehiveIm.Access

open BeehiveIm.Lib

/-- The socket blocks when it has taken nothing of the item that is its turn; `lens` is what there
is to be sent of each. -/
def stalls : List Nat → List Write → Bool
  | [], _ => false
  | left :: lens, ws =>
    match writen left ws with
    | (_, ws, .all) => stalls lens ws
    | (n, _, .again) => n = 0
    | (_, _, .failed) => false

namespace SendConn

/-- What the items still to be sent have left. -/
def lens (c : SendConn) : List Nat :=
  (c.send.map fun send => send.addr.length - send.off).toList ++ c.sendList.map fun item => item.data.length

/-- The bytes still to be sent. -/
def unsent (c : SendConn) : List Byte :=
  (c.send.elim [] fun send => send.addr.drop send.off) ++ c.sendList.flatMap SendItem.data

/-- There is something to send. -/
def Busy (c : SendConn) : Prop := c.send.isSome ∨ c.sendList ≠ []

end SendConn

variable {S : SendRsvr} {c : SendConn} {cid : BitVec 64} {item : SendItem} {send : SendSnap} {l : List SendItem}
variable {ws : List Write} {left : Nat}

/-! ## `Writen` -/

theorem writen_zero (ws : List Write) : writen 0 ws = (0, ws, .all) := by
  unfold writen
  rfl

/-- It takes all that it is given when it says so, and never more. -/
theorem writen_le (ws : List Write) : ∀ left, (writen left ws).1 ≤ left ∧
    ((writen left ws).2.2 = .all → (writen left ws).1 = left) := by
  induction ws with
  | nil =>
    intro left
    cases left with
    | zero => simp [writen_zero]
    | succ left => simp [writen]
  | cons w ws ih =>
    intro left
    cases left with
    | zero => simp [writen_zero]
    | succ left =>
      cases w with
      | takes n =>
        have := ih (left + 1 - n)
        simp only [writen]
        refine ⟨by omega, fun hall => ?_⟩
        have := this.2 hall
        omega
      | eintr => simpa only [writen] using ih (left + 1)
      | eagain => simp [writen]
      | failed => simp [writen]

/-! ## A pass -/

/-- What a pass does with an item being sent and the list behind it. -/
structure Passed (send : SendSnap) (l : List SendItem) (ws : List Write) (p : Pass) : Prop where
  item : p.freedItem ++ p.sendList.map SendItem.id = l.map SendItem.id
  data : p.freedData ++ (p.send.map SendSnap.id).toList ++ p.sendList.map SendItem.id = send.id :: l.map SendItem.id
  suffix : p.sendList <:+ l
  wire : p.ret ≠ .err → p.wire ++ (SendConn.unsent ⟨p.send, p.sendList, ⟨false, false⟩, []⟩) =
    send.addr.drop send.off ++ l.flatMap SendItem.data
  out : p.ret ≠ .err → p.send.isSome → p.evs = none ∨ p.evs = some ⟨true, true⟩
  done : p.ret ≠ .err → p.send = none → p.sendList = [] ∧ p.evs = some ⟨true, false⟩
  err : p.ret = .err ↔ p.failed = true ∨ stalls
    ((send.addr.length - send.off) :: l.map fun item => item.data.length) ws = true

/-- One turn of the loop, by what `Writen` says of the item. -/
theorem sendLoop_turn (l : List SendItem) (send : SendSnap) : ∀ {n : Nat} {ws' : List Write} {r : Written},
    writen (send.addr.length - send.off) ws = (n, ws', r) → sendLoop l send ws =
      match r, l with
      | .failed, l => ⟨none, l, (send.addr.drop send.off).take n, none, [], [send.id], .err, true⟩
      | .again, l =>
        if 0 < n then ⟨some { send with off := send.off + n }, l, (send.addr.drop send.off).take n, none, [], [],
          .sckAgain, false⟩
        else ⟨none, l, (send.addr.drop send.off).take n, none, [], [send.id], .err, false⟩
      | .all, [] => ⟨none, [], (send.addr.drop send.off).take n, some ⟨true, false⟩, [], [send.id], .ok, false⟩
      | .all, item :: l =>
        let p := sendLoop l ⟨item.id, item.data, 0⟩ ws'
        { p with
          wire := (send.addr.drop send.off).take n ++ p.wire
          evs := p.evs.orElse fun _ => some ⟨true, true⟩
          freedItem := item.id :: p.freedItem
          freedData := send.id :: p.freedData } := by
  intro n ws' r hw
  conv_lhs => unfold sendLoop
  simp only [hw]
  cases r with
  | failed => rfl
  | again => rfl
  | all => cases l <;> rfl

/-- The socket takes some of the item, or the pass fails; the list stays as it is. -/
theorem passed_stop {n : Nat} {ws' : List Write} (l : List SendItem) (send : SendSnap) (r : Written)
    (hw : writen (send.addr.length - send.off) ws = (n, ws', r)) (hr : r ≠ .all) :
    Passed send l ws (sendLoop l send ws) := by
  have hle : n ≤ send.addr.length - send.off := by
    have := (writen_le ws (send.addr.length - send.off)).1
    rwa [hw] at this
  have hstalls : stalls ((send.addr.length - send.off) :: l.map fun item => item.data.length) ws =
      (decide (r = .again) && decide (n = 0)) := by
    rw [stalls, hw]
    cases r with
    | all => exact absurd rfl hr
    | again => rfl
    | failed => rfl
  cases r with
  | all => exact absurd rfl hr
  | failed =>
    have hloop : sendLoop l send ws = ⟨none, l, (send.addr.drop send.off).take n, none, [], [send.id], .err, true⟩ :=
      sendLoop_turn l send hw
    rw [hloop]
    exact ⟨rfl, rfl, List.suffix_rfl, fun h => absurd rfl h, fun h => absurd rfl h, fun h => absurd rfl h,
      ⟨fun _ => .inl rfl, fun _ => rfl⟩⟩
  | again =>
    by_cases hn : 0 < n
    · have hloop : sendLoop l send ws =
          ⟨some { send with off := send.off + n }, l, (send.addr.drop send.off).take n, none, [], [], .sckAgain,
          false⟩ := by
        rw [sendLoop_turn l send hw]
        exact if_pos hn
      have hzero : n ≠ 0 := by omega
      rw [hloop]
      refine ⟨rfl, rfl, List.suffix_rfl, fun _ => ?_, fun _ _ => .inl rfl, fun _ h => (by cases h), ?_⟩
      · simp only [SendConn.unsent, Option.elim_some]
        rw [← List.append_assoc, ← List.drop_drop, List.take_append_drop]
      · rw [hstalls]
        simp [hzero]
    · have hloop : sendLoop l send ws =
          ⟨none, l, (send.addr.drop send.off).take n, none, [], [send.id], .err, false⟩ := by
        rw [sendLoop_turn l send hw]
        exact if_neg hn
      have hzero : n = 0 := by omega
      rw [hloop]
      refine ⟨rfl, rfl, List.suffix_rfl, fun h => absurd rfl h, fun h => absurd rfl h, fun h => absurd rfl h, ?_⟩
      rw [hstalls]
      simp [hzero]

theorem take_all {n : Nat} {ws' : List Write} (hw : writen (send.addr.length - send.off) ws = (n, ws', .all)) :
    (send.addr.drop send.off).take n = send.addr.drop send.off := by
  have hn := (writen_le ws (send.addr.length - send.off)).2
  rw [hw] at hn
  have hn : n = send.addr.length - send.off := hn rfl
  rw [List.take_of_length_le (by rw [List.length_drop, hn])]

theorem sendLoop_passed (l : List SendItem) :
    ∀ (send : SendSnap) (ws : List Write), Passed send l ws (sendLoop l send ws) := by
  induction l with
  | nil =>
    intro send ws
    rcases hw : writen (send.addr.length - send.off) ws with ⟨n, ws', r⟩
    by_cases hr : r = .all
    · subst hr
      have hloop : sendLoop [] send ws =
          ⟨none, [], send.addr.drop send.off, some ⟨true, false⟩, [], [send.id], .ok, false⟩ := by
        rw [sendLoop_turn [] send hw, take_all hw]
      rw [hloop]
      refine ⟨rfl, rfl, List.suffix_rfl, fun _ => by simp [SendConn.unsent], fun _ h => (by cases h),
        fun _ _ => ⟨rfl, rfl⟩, ?_⟩
      simp [stalls, hw]
    · exact passed_stop [] send r hw hr
  | cons item l ih =>
    intro send ws
    rcases hw : writen (send.addr.length - send.off) ws with ⟨n, ws', r⟩
    by_cases hr : r = .all
    · subst hr
      have h := ih ⟨item.id, item.data, 0⟩ ws'
      generalize hp : sendLoop l ⟨item.id, item.data, 0⟩ ws' = p at h
      have hloop : sendLoop (item :: l) send ws = { p with
          wire := send.addr.drop send.off ++ p.wire
          evs := p.evs.orElse fun _ => some ⟨true, true⟩
          freedItem := item.id :: p.freedItem
          freedData := send.id :: p.freedData } := by
        rw [sendLoop_turn (item :: l) send hw, take_all hw, ← hp]
      rw [hloop]
      refine ⟨?_, ?_, h.suffix.trans (List.suffix_cons item l), fun hok => ?_, fun hok hsome => ?_, fun hok hnone => ?_,
        ?_⟩
      · simp [h.item]
      · simpa using h.data
      · have := h.wire hok
        simp only [List.append_assoc] at this ⊢
        rw [this]
        simp
      · rcases h.out hok hsome with hevs | hevs
        · exact .inr (by simp [hevs])
        · exact .inr (by simp [hevs])
      · obtain ⟨hl, hevs⟩ := h.done hok hnone
        exact ⟨hl, by simp [hevs]⟩
      · rw [List.map_cons, stalls, hw]
        simpa using h.err
    · exact passed_stop (item :: l) send r hw hr

/-- What a pass does with a connection. -/
structure SendConn.Serves (c : SendConn) (ws : List Write) (p : Pass) : Prop where
  item : p.freedItem ++ p.sendList.map SendItem.id = c.sendList.map SendItem.id
  data : p.freedData ++ (p.send.map SendSnap.id).toList ++ p.sendList.map SendItem.id =
    (c.send.map SendSnap.id).toList ++ c.sendList.map SendItem.id
  suffix : p.sendList <:+ c.sendList
  wire : p.ret ≠ .err → p.wire ++ (c.after p).unsent = c.unsent
  evs : p.ret ≠ .err → (c.Busy → c.evs.epollout = true) → (¬c.Busy → c.evs.epollin = true) →
    ((c.after p).Busy → (c.after p).evs.epollout = true) ∧ (¬(c.after p).Busy → (c.after p).evs.epollin = true)
  err : p.ret = .err ↔ p.failed = true ∨ stalls c.lens ws = true

theorem Passed.evs {p : Pass} (h : Passed send l ws p) (c : SendConn) (hok : p.ret ≠ .err)
    (hout : c.evs.epollout = true) :
    ((c.after p).Busy → (c.after p).evs.epollout = true) ∧ (¬(c.after p).Busy → (c.after p).evs.epollin = true) := by
  cases hs : p.send with
  | none =>
    obtain ⟨hl, hevs⟩ := h.done hok hs
    have hidle : ¬(c.after p).Busy := by simp [SendConn.Busy, SendConn.after, hs, hl]
    exact ⟨fun hb => absurd hb hidle, fun _ => by simp [SendConn.after, hevs]⟩
  | some s =>
    have hbusy : (c.after p).Busy := by simp [SendConn.Busy, SendConn.after, hs]
    refine ⟨fun _ => ?_, fun hb => absurd hbusy hb⟩
    rcases h.out hok (by rw [hs]; rfl) with hevs | hevs
    · simpa [SendConn.after, hevs] using hout
    · simp [SendConn.after, hevs]

theorem accSendData_serves (c : SendConn) (ws : List Write) : c.Serves ws (c.accSendData ws) := by
  obtain ⟨s, l, evs, wire⟩ := c
  cases s with
  | some send =>
    have h := sendLoop_passed l send ws
    exact ⟨h.item, h.data, h.suffix, h.wire, fun hok hbusy _ => h.evs _ hok (hbusy (.inl rfl)), h.err⟩
  | none =>
    cases l with
    | nil =>
      exact ⟨rfl, rfl, List.suffix_rfl, fun _ => rfl, fun _ h₁ h₂ => ⟨h₁, h₂⟩,
        by simp [SendConn.accSendData, SendConn.lens, stalls]⟩
    | cons item l =>
      have h := sendLoop_passed l ⟨item.id, item.data, 0⟩ ws
      refine ⟨by simp [SendConn.accSendData, h.item], ?_, h.suffix.trans (List.suffix_cons item l), fun hok => ?_,
        fun hok hbusy _ => h.evs _ hok (hbusy (.inr (by simp))), ?_⟩
      · simpa [SendConn.accSendData] using h.data
      · have := h.wire hok
        simpa [SendConn.accSendData, SendConn.unsent, SendConn.after] using this
      · simpa [SendConn.accSendData, SendConn.lens] using h.err

/-! ## The thread -/

namespace SendRsvr

/-- How often an item waits in the queue of the thread or in the list of its connection. -/
def waiting (S : SendRsvr) (item : SendItem) : Nat :=
  (S.sendq.map SendItem.id).count item.id + (S.conns item.cid).elim 0 fun c =>
  (c.sendList.map SendItem.id).count item.id

/-- How often its data is what the connection sends from. -/
def sending (S : SendRsvr) (item : SendItem) : Nat :=
  (S.conns item.cid).elim 0 fun c => (c.send.map SendSnap.id).toList.count item.id

/-- The bytes of the items for a connection. -/
def bytesFor (cid : BitVec 64) (items : List SendItem) : List Byte :=
  (items.filter fun item => item.cid = cid).flatMap SendItem.data

/-- On a connection go the items that were queued for it, in their order and whole; sending closes
it after a failed `write` only; epoll watches for what the connection waits for. An item waits or is
freed, once, and its data waits, is sent or is freed, once. -/
structure Sound (S : SendRsvr) : Prop where
  wire : ∀ cid c, S.conns cid = some c → c.wire ++ c.unsent ++ bytesFor cid S.sendq = bytesFor cid S.queued
  closed : ∀ e ∈ S.closed, e.2 = true
  out : ∀ cid c, S.conns cid = some c → c.Busy → c.evs.epollout = true
  in_ : ∀ cid c, S.conns cid = some c → ¬c.Busy → c.evs.epollin = true
  item : ∀ item ∈ S.queued, S.waiting item + S.freedItem.count item.id = 1
  data : ∀ item ∈ S.queued, S.waiting item + S.sending item + S.freedData.count item.id = 1

/-- The pass does not come to an item of which the socket takes nothing, and there is memory for the
lists. -/
def Guard (S : SendRsvr) : SendEvent → Prop
  | .dist mem => ∀ item ∈ S.sendq, (S.conns item.cid).isSome → mem item.id
  | .writable cid ws => ∀ c ∈ S.conns cid, stalls c.lens ws = false
  | _ => True

instance (S : SendRsvr) (e : SendEvent) : Decidable (S.Guard e) := by
  cases e <;> unfold Guard <;> infer_instance

/-- What is kept besides: the numbers are given out once, and an item is where it belongs. -/
structure Inv (S : SendRsvr) : Prop extends Sound S where
  lt : ∀ item ∈ S.queued, item.id < S.next
  inj : ∀ a ∈ S.queued, ∀ b ∈ S.queued, a.id = b.id → a = b
  freed : ∀ id ∈ S.freedItem ++ S.freedData, id < S.next
  sendq : ∀ item ∈ S.sendq, item ∈ S.queued
  list : ∀ cid c, S.conns cid = some c → ∀ item ∈ c.sendList, item ∈ S.queued ∧ item.cid = cid
  send : ∀ cid c, S.conns cid = some c → ∀ s, c.send = some s → ∃ item ∈ S.queued, item.id = s.id ∧ item.cid = cid

theorem init_inv : init.Inv where
  wire _ _ h := by cases h
  closed _ h := by cases h
  out _ _ h := by cases h
  in_ _ _ h := by cases h
  item _ h := by cases h
  data _ h := by cases h
  lt _ h := by cases h
  inj _ h := by cases h
  freed _ h := by cases h
  sendq _ h := by cases h
  list _ _ h := by cases h
  send _ _ h := by cases h

/-- The numbers of the items in the list of a connection. -/
def listIds (c : Option SendConn) : List Nat := c.elim [] fun c => c.sendList.map SendItem.id

/-- The number of the item a connection sends from. -/
def sendIds (c : Option SendConn) : List Nat := c.elim [] fun c => (c.send.map SendSnap.id).toList

theorem waiting_eq (S : SendRsvr) (item : SendItem) :
    S.waiting item = (S.sendq.map SendItem.id).count item.id + (listIds (S.conns item.cid)).count item.id := by
  rw [waiting, listIds]
  cases S.conns item.cid <;> rfl

theorem sending_eq (S : SendRsvr) (item : SendItem) : S.sending item = (sendIds (S.conns item.cid)).count item.id := by
  rw [sending, sendIds]
  cases S.conns item.cid <;> rfl

/-- What belongs to a connection has no number of an item for another. -/
theorem Inv.apart (h : S.Inv) (hc : S.conns cid = some c) (hi : item ∈ S.queued) (hne : item.cid ≠ cid) :
    (listIds (some c)).count item.id = 0 ∧ (sendIds (some c)).count item.id = 0 := by
  constructor
  · rw [List.count_eq_zero]
    intro hmem
    obtain ⟨item', hitem', hid⟩ := List.mem_map.1 hmem
    obtain ⟨hq, hcid⟩ := h.list cid c hc item' hitem'
    exact hne (h.inj item' hq item hi hid ▸ hcid)
  · rw [List.count_eq_zero]
    intro hmem
    cases hs : c.send with
    | none => simp [sendIds, hs] at hmem
    | some s =>
      obtain ⟨item', hq, hid, hcid⟩ := h.send cid c hc s hs
      have hid' : item.id = s.id := by simpa [sendIds, hs] using hmem
      exact hne (h.inj item' hq item hi (hid.trans hid'.symm) ▸ hcid)

/-- A connection goes on, or ends, with items out of the queue: each stays in one place. -/
theorem Inv.turn (h : S.Inv) (cid : BitVec 64) (c' : Option SendConn) (sendq : List SendItem)
    (freedItem freedData : List Nat)
    {closed : List (BitVec 64 × Bool)}
    (hwire : ∀ c, c' = some c → c.wire ++ c.unsent ++ bytesFor cid sendq = bytesFor cid S.queued)
    (hbytes : ∀ cid' ≠ cid, bytesFor cid' sendq = bytesFor cid' S.sendq)
    (hclosed : ∀ e ∈ closed, e.2 = true)
    (hevs : ∀ c, c' = some c → (c.Busy → c.evs.epollout = true) ∧ (¬c.Busy → c.evs.epollin = true))
    (hitem : ∀ item ∈ S.queued, (sendq.map SendItem.id).count item.id + freedItem.count item.id +
        (if item.cid = cid then (listIds c').count item.id else 0) =
      (S.sendq.map SendItem.id).count item.id + S.freedItem.count item.id +
        (if item.cid = cid then (listIds (S.conns cid)).count item.id else 0))
    (hdata : ∀ item ∈ S.queued, (sendq.map SendItem.id).count item.id + freedData.count item.id +
        (if item.cid = cid then (listIds c').count item.id + (sendIds c').count item.id else 0) =
      (S.sendq.map SendItem.id).count item.id + S.freedData.count item.id +
        (if item.cid = cid then (listIds (S.conns cid)).count item.id + (sendIds (S.conns cid)).count item.id else 0))
    (hfreed : ∀ id ∈ freedItem ++ freedData, id < S.next)
    (hsendq : ∀ item ∈ sendq, item ∈ S.queued)
    (hlist : ∀ c, c' = some c → ∀ item ∈ c.sendList, item ∈ S.queued ∧ item.cid = cid)
    (hsend : ∀ c, c' = some c → ∀ s, c.send = some s → ∃ item ∈ S.queued, item.id = s.id ∧ item.cid = cid) :
    Inv { S with
      conns := Function.update S.conns cid c', sendq := sendq, freedItem := freedItem, freedData := freedData, closed :=
        closed } where
  wire cid' c hc := by
    by_cases hcid : cid' = cid
    · subst hcid
      exact hwire c (by simpa using hc)
    · simp only [Function.update_of_ne hcid] at hc
      simp only [hbytes cid' hcid]
      exact h.wire cid' c hc
  closed := hclosed
  out cid' c hc := by
    by_cases hcid : cid' = cid
    · subst hcid
      exact (hevs c (by simpa using hc)).1
    · simp only [Function.update_of_ne hcid] at hc
      exact h.out cid' c hc
  in_ cid' c hc := by
    by_cases hcid : cid' = cid
    · subst hcid
      exact (hevs c (by simpa using hc)).2
    · simp only [Function.update_of_ne hcid] at hc
      exact h.in_ cid' c hc
  item item hi := by
    have hold := h.item item hi
    have hnew := hitem item hi
    rw [waiting_eq] at hold ⊢
    by_cases hcid : item.cid = cid
    · rw [← hcid] at hnew ⊢
      simp only [if_true, Function.update_self] at hnew ⊢
      omega
    · simp only [if_neg hcid, Function.update_of_ne hcid] at hnew ⊢
      omega
  data item hi := by
    have hold := h.data item hi
    have hnew := hdata item hi
    rw [waiting_eq, sending_eq] at hold ⊢
    by_cases hcid : item.cid = cid
    · rw [← hcid] at hnew ⊢
      simp only [if_true, Function.update_self] at hnew ⊢
      omega
    · simp only [if_neg hcid, Function.update_of_ne hcid] at hnew ⊢
      omega
  lt := h.lt
  inj := h.inj
  freed := hfreed
  sendq := hsendq
  list cid' c hc := by
    by_cases hcid : cid' = cid
    · subst hcid
      exact hlist c (by simpa using hc)
    · simp only [Function.update_of_ne hcid] at hc
      exact h.list cid' c hc
  send cid' c hc := by
    by_cases hcid : cid' = cid
    · subst hcid
      exact hsend c (by simpa using hc)
    · simp only [Function.update_of_ne hcid] at hc
      exact h.send cid' c hc

theorem bytesFor_append (cid : BitVec 64) (l l' : List SendItem) :
    bytesFor cid (l ++ l') = bytesFor cid l ++ bytesFor cid l' := by
  simp [bytesFor]

theorem bytesFor_cons_self (item : SendItem) (l : List SendItem) :
    bytesFor item.cid (item :: l) = item.data ++ bytesFor item.cid l := by
  simp [bytesFor]

theorem bytesFor_cons_ne (h : item.cid ≠ cid) (l : List SendItem) : bytesFor cid (item :: l) = bytesFor cid l := by
  simp [bytesFor, h]

theorem bytesFor_eq_nil (h : ∀ item ∈ l, item.cid ≠ cid) : bytesFor cid l = [] := by
  have : l.filter (fun item => item.cid = cid) = [] := by simpa using h
  rw [bytesFor, this]
  rfl

theorem Inv.accRsvrAddConn (h : S.Inv) {S' : SendRsvr} (hs : S.accRsvrAddConn cid = some S') : S'.Inv := by
  rw [SendRsvr.accRsvrAddConn] at hs
  split at hs
  swap
  · cases hs
  rename_i hnew
  cases hs
  have hidle : ¬(⟨none, [], ⟨true, false⟩, []⟩ : SendConn).Busy := by simp [SendConn.Busy]
  refine h.turn cid _ S.sendq _ _ (fun c hc => ?_) (fun _ _ => rfl) h.closed (fun c hc => ?_) (fun item hi => ?_)
    (fun item hi => ?_) h.freed h.sendq (fun c hc item hi => ?_) (fun c hc s hs => ?_)
  · cases hc
    rw [bytesFor_eq_nil hnew.2, bytesFor_eq_nil fun item hi => hnew.2 item (h.sendq item hi)]
    rfl
  · cases hc
    exact ⟨fun hb => absurd hb hidle, fun _ => rfl⟩
  · simp [hnew.2 item hi]
  · simp [hnew.2 item hi]
  · cases hc
    cases hi
  · cases hc
    cases hs

theorem Inv.id_lt (h : S.Inv) : (∀ id ∈ S.sendq.map SendItem.id, id < S.next) ∧
    ∀ cid, ∀ id ∈ listIds (S.conns cid) ++ sendIds (S.conns cid), id < S.next := by
  constructor
  · intro id hid
    obtain ⟨item, hi, rfl⟩ := List.mem_map.1 hid
    exact h.lt item (h.sendq item hi)
  · intro cid id hid
    cases hc : S.conns cid with
    | none => simp [hc, listIds, sendIds] at hid
    | some c =>
      rw [hc] at hid
      rcases List.mem_append.1 hid with hid | hid
      · obtain ⟨item, hi, rfl⟩ := List.mem_map.1 hid
        exact h.lt item (h.list cid c hc item hi).1
      · cases hs : c.send with
        | none => simp [sendIds, hs] at hid
        | some s =>
          obtain ⟨item, hi, hids, -⟩ := h.send cid c hc s hs
          have hid : id = s.id := by simpa [sendIds, hs] using hid
          rw [hid, ← hids]
          exact h.lt item hi

theorem Inv.accAsyncSend (h : S.Inv) (cid : BitVec 64) (data : List Byte) (place : Bool) :
    (S.accAsyncSend cid data place).Inv := by
  rw [SendRsvr.accAsyncSend]
  split
  swap
  · exact h
  have hnew : ∀ (l : List Nat), (∀ id ∈ l, id < S.next) → l.count S.next = 0 := fun l hl =>
    List.count_eq_zero.2 fun hmem => absurd (hl _ hmem) (Nat.lt_irrefl _)
  obtain ⟨hqueue, hconns⟩ := h.id_lt
  have hfreed : S.freedItem.count S.next = 0 ∧ S.freedData.count S.next = 0 :=
    ⟨hnew _ fun id hid => h.freed id (List.mem_append_left _ hid),
    hnew _ fun id hid => h.freed id (List.mem_append_right _ hid)⟩
  have hplace : ∀ cid, (listIds (S.conns cid)).count S.next = 0 ∧ (sendIds (S.conns cid)).count S.next = 0 := fun cid =>
    ⟨hnew _ fun id hid => hconns cid id (List.mem_append_left _ hid),
    hnew _ fun id hid => hconns cid id (List.mem_append_right _ hid)⟩
  refine { h with wire := ?_, item := ?_, data := ?_, lt := ?_, inj := ?_, freed := ?_, sendq := ?_, list := ?_, send := ?_ }
  · intro cid' c hc
    simp only [bytesFor_append, ← h.wire cid' c hc, List.append_assoc]
  · intro item hi
    rcases List.mem_append.1 hi with hi | hi
    · have hold := h.item item hi
      have hne : S.next ≠ item.id := (h.lt item hi).ne'
      rw [waiting_eq] at hold ⊢
      simpa [hne] using hold
    · obtain rfl := List.mem_singleton.1 hi
      simp [waiting_eq, hnew _ hqueue, hplace, hfreed]
  · intro item hi
    rcases List.mem_append.1 hi with hi | hi
    · have hold := h.data item hi
      have hne : S.next ≠ item.id := (h.lt item hi).ne'
      rw [waiting_eq, sending_eq] at hold ⊢
      simpa [hne] using hold
    · obtain rfl := List.mem_singleton.1 hi
      simp [waiting_eq, sending_eq, hnew _ hqueue, hplace, hfreed]
  · intro item hi
    rcases List.mem_append.1 hi with hi | hi
    · exact Nat.lt_succ_of_lt (h.lt item hi)
    · obtain rfl := List.mem_singleton.1 hi
      exact Nat.lt_succ_self _
  · intro a ha b hb hab
    rcases List.mem_append.1 ha with ha | ha <;> rcases List.mem_append.1 hb with hb | hb
    · exact h.inj a ha b hb hab
    · obtain rfl := List.mem_singleton.1 hb
      exact absurd hab (h.lt a ha).ne
    · obtain rfl := List.mem_singleton.1 ha
      exact absurd hab.symm (h.lt b hb).ne
    · rw [List.mem_singleton.1 ha, List.mem_singleton.1 hb]
  · intro id hid
    exact Nat.lt_succ_of_lt (h.freed id hid)
  · intro item hi
    rcases List.mem_append.1 hi with hi | hi
    · exact List.mem_append_left _ (h.sendq item hi)
    · exact List.mem_append_right _ hi
  · intro cid' c hc item hi
    exact ⟨List.mem_append_left _ (h.list cid' c hc item hi).1, (h.list cid' c hc item hi).2⟩
  · intro cid' c hc s hs
    obtain ⟨item, hi, hid⟩ := h.send cid' c hc s hs
    exact ⟨item, List.mem_append_left _ hi, hid⟩

/-- An item goes from the queue to the list of its connection, or is freed. -/
theorem Inv.distItem {mem : Nat → Bool} (h : Inv { S with sendq := item :: l })
    (hmem : (S.conns item.cid).isSome → mem item.id) : Inv { SendRsvr.distItem mem S item with sendq := l } := by
  have hsub : ∀ item' ∈ l, item' ∈ S.queued := fun item' hi => h.sendq item' (List.mem_cons_of_mem _ hi)
  have hitem : item ∈ S.queued := h.sendq item List.mem_cons_self
  have hbytes : ∀ cid', cid' ≠ item.cid → bytesFor cid' l = bytesFor cid' (item :: l) := fun cid' hne =>
    (bytesFor_cons_ne hne.symm l).symm
  rw [SendRsvr.distItem]
  cases hc : S.conns item.cid with
  | none =>
    have hsame : Function.update S.conns item.cid none = S.conns := by rw [← hc, Function.update_eq_self]
    have := h.turn item.cid none l (item.id :: S.freedItem) (item.id :: S.freedData)
      (fun _ h => (by cases h)) hbytes h.closed (fun _ h => (by cases h)) (fun item' _ => ?_)
      (fun item' _ => ?_) ?_ hsub (fun _ h => (by cases h)) (fun _ h => (by cases h))
    · rw [← hsame]
      exact this
    · simp only [hc, List.map_cons, List.count_cons]
      omega
    · simp only [hc, List.map_cons, List.count_cons]
      omega
    · intro id hid
      have hlt := h.lt item hitem
      simp only [List.cons_append, List.mem_cons, List.mem_append] at hid
      rcases hid with rfl | hid | rfl | hid
      · exact hlt
      · exact h.freed id (List.mem_append_left _ hid)
      · exact hlt
      · exact h.freed id (List.mem_append_right _ hid)
  | some c =>
    have hm : mem item.id = true := hmem (by rw [hc]; rfl)
    simp only [hm, if_true]
    refine h.turn item.cid _ l _ _ (fun c' hc' => ?_) hbytes h.closed (fun c' hc' => ?_) (fun item' hi' => ?_)
      (fun item' hi' => ?_) h.freed hsub (fun c' hc' item' hi' => ?_) (fun c' hc' s hs => ?_)
    · cases hc'
      have := h.wire item.cid c hc
      rw [bytesFor_cons_self] at this
      rw [← this]
      simp [SendConn.unsent]
    · cases hc'
      exact ⟨fun _ => rfl, fun hb => absurd (.inr (by simp)) hb⟩
    · have hne : item'.cid ≠ item.cid → item.id ≠ item'.id :=
        fun hcid hid => hcid (h.inj item hitem item' hi' hid ▸ rfl)
      by_cases hcid : item'.cid = item.cid
      · simp only [hcid, if_true, hc, listIds, Option.elim_some, List.map_append, List.count_append, List.map_cons,
          List.map_nil, List.count_cons, List.count_nil]
        omega
      · simp [hcid, hne hcid]
    · have hne : item'.cid ≠ item.cid → item.id ≠ item'.id :=
        fun hcid hid => hcid (h.inj item hitem item' hi' hid ▸ rfl)
      by_cases hcid : item'.cid = item.cid
      · simp only [hcid, if_true, hc, listIds, sendIds, Option.elim_some, List.map_append, List.count_append,
          List.map_cons, List.map_nil, List.count_cons, List.count_nil]
        omega
      · simp [hcid, hne hcid]
    · cases hc'
      rcases List.mem_append.1 hi' with hi' | hi'
      · exact h.list item.cid c hc item' hi'
      · rw [List.mem_singleton.1 hi']
        exact ⟨hitem, rfl⟩
    · cases hc'
      exact h.send item.cid c hc s hs

theorem distItem_sendq (mem : Nat → Bool) (S : SendRsvr) (item : SendItem) (l : List SendItem) :
    SendRsvr.distItem mem { S with sendq := l } item = { SendRsvr.distItem mem S item with sendq := l } := by
  simp only [SendRsvr.distItem]
  split
  · split <;> rfl
  · rfl

theorem isSome_distItem (mem : Nat → Bool) (S : SendRsvr) (item : SendItem) (cid : BitVec 64) :
    ((SendRsvr.distItem mem S item).conns cid).isSome = (S.conns cid).isSome := by
  rw [SendRsvr.distItem]
  cases hc : S.conns item.cid with
  | none => rfl
  | some c =>
    simp only
    split
    · by_cases hcid : cid = item.cid
      · subst hcid
        simp [hc]
      · simp [hcid]
    · rfl

theorem Inv.dist {mem : Nat → Bool} (l : List SendItem) : ∀ {S : SendRsvr}, Inv { S with sendq := l } →
    (∀ item ∈ l, (S.conns item.cid).isSome → mem item.id) → Inv
    (l.foldl (SendRsvr.distItem mem) { S with sendq := [] }) := by
  induction l with
  | nil => exact fun h _ => h
  | cons item l ih =>
    intro S h hmem
    rw [List.foldl_cons, distItem_sendq]
    refine ih (h.distItem (hmem item List.mem_cons_self)) fun item' hi' hsome => ?_
    exact hmem item' (List.mem_cons_of_mem _ hi') (by rwa [isSome_distItem] at hsome)

theorem Inv.accRsvrDistSendData {mem : Nat → Bool} (h : S.Inv) (hg : S.Guard (.dist mem)) :
    (S.accRsvrDistSendData mem).Inv :=
  Inv.dist S.sendq h hg

/-- The connection ends, and what is left of it is freed; some of it may have been already. -/
theorem Inv.drop (h : S.Inv) (hc : S.conns cid = some c) (freedItem freedData : List Nat)
    (closed : List (BitVec 64 × Bool)) (hitem : freedItem.Perm (c.sendList.map SendItem.id ++ S.freedItem))
    (hdata : freedData.Perm ((c.send.map SendSnap.id).toList ++ c.sendList.map SendItem.id ++ S.freedData))
    (hclosed : ∀ e ∈ closed, e.2 = true) :
    Inv { S with conns := Function.update S.conns cid none, freedItem := freedItem, freedData := freedData, closed := closed } := by
  have hlt := h.id_lt.2 cid
  rw [hc] at hlt
  refine h.turn cid none S.sendq freedItem freedData (fun _ h => (by cases h)) (fun _ _ => rfl) hclosed
    (fun _ h => (by cases h))
    (fun item hi => ?_) (fun item hi => ?_) (fun id hid => ?_) h.sendq (fun _ h => (by cases h))
    (fun _ h => (by cases h))
  · rw [hitem.count_eq, List.count_append]
    by_cases hcid : item.cid = cid
    · simp only [hcid, if_true, hc, listIds, Option.elim_some, Option.elim_none, List.count_nil]
      omega
    · have hzero := (h.apart hc hi hcid).1
      simp only [listIds, Option.elim_some] at hzero
      simp only [hcid, if_false, hzero]
      omega
  · rw [hdata.count_eq, List.count_append, List.count_append]
    by_cases hcid : item.cid = cid
    · simp only [hcid, if_true, hc, listIds, sendIds, Option.elim_some, Option.elim_none, List.count_nil]
      omega
    · obtain ⟨hzero, hzero'⟩ := h.apart hc hi hcid
      simp only [listIds, sendIds, Option.elim_some] at hzero hzero'
      simp only [hcid, if_false, hzero, hzero']
      omega
  · rw [List.mem_append, hitem.mem_iff, hdata.mem_iff] at hid
    simp only [List.mem_append] at hid
    rcases hid with (hid | hid) | ((hid | hid) | hid)
    · exact hlt id (List.mem_append_left _ hid)
    · exact h.freed id (List.mem_append_left _ hid)
    · exact hlt id (List.mem_append_right _ hid)
    · exact hlt id (List.mem_append_left _ hid)
    · exact h.freed id (List.mem_append_right _ hid)

theorem Inv.accRsvrDelConn (h : S.Inv) (hc : S.conns cid = some c) : (S.accRsvrDelConn cid c).Inv :=
  h.drop hc _ _ _ (.refl _) (List.perm_append_comm.append_right _ |>.trans (by rw [List.append_assoc])) h.closed

theorem Inv.accRsvrEventHdl (h : S.Inv) (hc : S.conns cid = some c) (hg : stalls c.lens ws = false) :
    (S.accRsvrEventHdl cid c ws).Inv := by
  have hp := accSendData_serves c ws
  rw [SendRsvr.accRsvrEventHdl]
  generalize c.accSendData ws = p at hp
  have hlt := h.id_lt.2 cid
  rw [hc] at hlt
  simp only
  split
  · -- the pass has ended the connection
    rename_i herr
    have hfailed : p.failed = true := (hp.err.1 herr).resolve_right (by simp [hg])
    have := h.drop hc (p.sendList.map SendItem.id ++ (p.freedItem ++ S.freedItem))
      (p.sendList.map SendItem.id ++ (p.send.map SendSnap.id).toList ++ (p.freedData ++ S.freedData))
      ((cid, p.failed) :: S.closed) ?_ ?_ ?_
    · simpa [SendRsvr.accRsvrDelConn, SendConn.after] using this
    · rw [← hp.item, ← List.append_assoc]
      exact List.perm_append_comm.append_right _
    · rw [← hp.data, ← List.append_assoc]
      refine List.Perm.append_right _ ?_
      rw [List.append_assoc p.freedData]
      exact List.perm_append_comm.trans (List.perm_append_comm.append_left _)
    · intro e he
      rcases List.mem_cons.1 he with rfl | he
      · exact hfailed
      · exact h.closed e he
  · rename_i hok
    have hitem : ∀ id, p.freedItem.count id + (p.sendList.map SendItem.id).count id =
        (c.sendList.map SendItem.id).count id := by
      intro id
      rw [← List.count_append, hp.item]
    have hdata : ∀ id, p.freedData.count id + (p.send.map SendSnap.id).toList.count id +
      (p.sendList.map SendItem.id).count id =
        (c.send.map SendSnap.id).toList.count id + (c.sendList.map SendItem.id).count id := by
      intro id
      rw [← List.count_append, ← List.count_append, hp.data, List.count_append]
    refine h.turn cid (some (c.after p)) S.sendq _ _ (fun c' hc' => ?_) (fun _ _ => rfl) h.closed (fun c' hc' => ?_)
      (fun item hi => ?_) (fun item hi => ?_) (fun id hid => ?_) h.sendq (fun c' hc' item hi => ?_)
      (fun c' hc' s hs => ?_)
    · cases hc'
      have hwire := hp.wire hok
      rw [← h.wire cid c hc, ← hwire]
      simp [SendConn.after]
    · cases hc'
      exact hp.evs hok (h.out cid c hc) (h.in_ cid c hc)
    · have := hitem item.id
      rw [List.count_append]
      by_cases hcid : item.cid = cid
      · simp only [hcid, if_true, hc, listIds, Option.elim_some, SendConn.after]
        omega
      · have hzero := (h.apart hc hi hcid).1
        simp only [listIds, Option.elim_some] at hzero
        simp only [hcid, if_false]
        omega
    · have := hdata item.id
      rw [List.count_append]
      by_cases hcid : item.cid = cid
      · simp only [hcid, if_true, hc, listIds, sendIds, Option.elim_some, SendConn.after]
        omega
      · obtain ⟨hzero, hzero'⟩ := h.apart hc hi hcid
        simp only [listIds, sendIds, Option.elim_some] at hzero hzero'
        simp only [hcid, if_false]
        omega
    · have hids : ∀ id ∈ p.freedItem ++ p.freedData, id < S.next := by
        intro id hid
        rcases List.mem_append.1 hid with hid | hid
        · refine hlt id (List.mem_append_left _ ?_)
          have : id ∈ p.freedItem ++ p.sendList.map SendItem.id := List.mem_append_left _ hid
          rwa [hp.item] at this
        · have hmem : id ∈ p.freedData ++ (p.send.map SendSnap.id).toList ++ p.sendList.map SendItem.id := by
            simp only [List.mem_append]
            exact .inl (.inl hid)
          rw [hp.data] at hmem
          exact hlt id (List.mem_append.2 (List.mem_append.1 hmem).symm)
      simp only [List.mem_append] at hid
      rcases hid with (hid | hid) | (hid | hid)
      · exact hids id (List.mem_append_left _ hid)
      · exact h.freed id (List.mem_append_left _ hid)
      · exact hids id (List.mem_append_right _ hid)
      · exact h.freed id (List.mem_append_right _ hid)
    · cases hc'
      exact h.list cid c hc item (hp.suffix.subset hi)
    · cases hc'
      have hmem : s.id ∈ p.freedData ++ (p.send.map SendSnap.id).toList ++ p.sendList.map SendItem.id := by
        have hs : p.send = some s := hs
        simp [hs]
      rw [hp.data] at hmem
      rcases List.mem_append.1 hmem with hmem | hmem
      · cases hsend : c.send with
        | none => simp [hsend] at hmem
        | some s' =>
          have hid : s.id = s'.id := by simpa [hsend] using hmem
          rw [hid]
          exact h.send cid c hc s' hsend
      · obtain ⟨item, hi, hid⟩ := List.mem_map.1 hmem
        exact ⟨item, (h.list cid c hc item hi).1, hid, (h.list cid c hc item hi).2⟩

theorem Inv.step {S' : SendRsvr} {e : SendEvent} (h : S.Inv) (hg : S.Guard e) (hs : S.step e = some S') : S'.Inv := by
  cases e with
  | «open» cid => exact h.accRsvrAddConn hs
  | asyncSend cid data place =>
    cases hs
    exact h.accAsyncSend cid data place
  | dist mem =>
    cases hs
    exact h.accRsvrDistSendData hg
  | writable cid ws =>
    obtain ⟨c, hc, rfl⟩ := Option.map_eq_some_iff.1 hs
    exact h.accRsvrEventHdl hc (hg c hc)
  | close cid =>
    obtain ⟨c, hc, rfl⟩ := Option.map_eq_some_iff.1 hs
    exact h.accRsvrDelConn hc

theorem Inv.run (es : List SendEvent) : ∀ {S S' : SendRsvr}, S.Inv →
    Guarded (fun S e => (S.step e).getD S) Guard S es → es.foldlM SendRsvr.step S = some S' → S'.Inv := by
  induction es with
  | nil =>
    intro S S' h _ hrun
    cases hrun
    exact h
  | cons e es ih =>
    intro S S' h hg hrun
    rw [List.foldlM_cons, Option.bind_eq_bind, Option.bind_eq_some_iff] at hrun
    obtain ⟨S₁, hs, hrun⟩ := hrun
    have hrest : Guarded (fun S e => (S.step e).getD S) Guard S₁ es := by simpa [hs] using hg.2
    exact ih (h.step hg.1 hs) hrest hrun

/-- Over every run in which no pass comes to an item of which the socket takes nothing. -/
theorem items_sent (es : List SendEvent) (S : SendRsvr) (hg : Guarded (fun S e => (S.step e).getD S) Guard init es)
    (hrun : es.foldlM SendRsvr.step init = some S) : S.Sound :=
  (init_inv.run es hg hrun).toSound

/-- The socket is full in the middle of the second item, and takes the rest of it later. -/
theorem items_sent_two : ∃ S,
    ([.open 1, .asyncSend 1 [1, 2] true, .asyncSend 1 [3, 4] true, .dist fun _ => true,
      .writable 1 [.takes 3, .takes 1, .eagain], .writable 1 [.eintr, .takes 1]] :
        List SendEvent).foldlM SendRsvr.step init = some S ∧ S.Sound := by
  obtain ⟨S, hS⟩ := Option.isSome_iff_exists.1 (by decide +kernel : (([.open 1, .asyncSend 1 [1, 2] true,
    .asyncSend 1 [3, 4] true, .dist fun _ => true, .writable 1 [.takes 3, .takes 1, .eagain],
    .writable 1 [.eintr, .takes 1]] : List SendEvent).foldlM SendRsvr.step init).isSome)
  exact ⟨S, hS, items_sent _ S (by decide +kernel) hS⟩

/-- The socket is full when the first item has gone out: the connection is closed, though
no `write` has failed. -/
theorem blocked_between_items : ∃ S,
    ([.open 1, .asyncSend 1 [1, 2] true, .asyncSend 1 [3, 4] true, .dist fun _ => true,
      .writable 1 [.takes 2, .eagain]] : List SendEvent).foldlM SendRsvr.step init = some S ∧ ¬S.Sound :=
  ⟨_, rfl, fun h => absurd (h.closed (1, false) (by decide +kernel)) (by decide)⟩

end SendRsvr

end BeehiveIm.Access

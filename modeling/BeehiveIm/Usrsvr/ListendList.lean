/-
The listeners that are alive, as the user server (`exec/usrsvr/controllers/task.go`) and the chat
room server (`exec/chatroom/controllers/task.go`) each keep them in a list. Redis answers with the
members of a sorted set and their scores by turns; how it writes a score is left open.
-/
import BeehiveIm.Lib.Strconv
import BeehiveIm.Lib.ZSet

namespace BeehiveIm.Usrsvr

open BeehiveIm.Lib

/-- `ZRANGEBYSCORE im:lsnd:nid:zset ctm +inf` -/
def alive (z : ZSet (BitVec 32)) (ctm : Int) : List (BitVec 32 × Int) := z.rangeByScore (some ctm) none

/-- The same `WITHSCORES`, as it is answered. -/
def withScores (score : Int → List Byte) (l : List (BitVec 32 × Int)) : List (List Byte) :=
  l.flatMap fun e => [decimal e.1.toNat, score e.2]

/-- The loop over the answer; an error empties the list. -/
def readNodes (step : Nat) : Except String (List (List Byte)) → List (BitVec 32)
  | .error _ => []
  | .ok nodes =>
    (List.range' 0 ((nodes.length + step - 1) / step) step).map fun idx => BitVec.ofInt 32
    (strconvParseInt 10 32 (nodes.getD idx []))

/-- `listend_list_update` of the user server -/
def listendListUpdate (nodes : Except String (List (List Byte))) : List (BitVec 32) := readNodes 1 nodes

/-- `updateListendList` of the chat room server -/
def updateListendList (nodes : Except String (List (List Byte))) : List (BitVec 32) := readNodes 2 nodes

/-- The list has each listener that is alive once, and nothing else. -/
def Lists (z : ZSet (BitVec 32)) (ctm : Int) (nodes : List (BitVec 32)) : Prop :=
  nodes.Nodup ∧ ∀ nid, nid ∈ nodes ↔ ∃ s, (nid, s) ∈ z.list ∧ ctm ≤ s

variable {z : ZSet (BitVec 32)} {ctm : Int} {score : Int → List Byte} {l : List (BitVec 32 × Int)}
    {nodes : List (BitVec 32)}

theorem mem_alive {e : BitVec 32 × Int} : e ∈ alive z ctm ↔ e ∈ z.list ∧ ctm ≤ e.2 := by
  simp [alive, ZSet.rangeByScore]

theorem nodup_alive : ((alive z ctm).map Prod.fst).Nodup := z.nodup.sublist (List.filter_sublist.map _)

theorem lists_alive (z : ZSet (BitVec 32)) (ctm : Int) : Lists z ctm ((alive z ctm).map Prod.fst) := by
  refine ⟨nodup_alive, fun nid => ?_⟩
  simp [mem_alive]

/-- Two lists of the listeners that are alive are as long. -/
theorem Lists.length_eq (h : Lists z ctm nodes) : nodes.length = (alive z ctm).length := by
  have hperm : nodes.Perm ((alive z ctm).map Prod.fst) :=
    (List.perm_ext_iff_of_nodup h.1 nodup_alive).2 fun nid => (h.2 nid).trans ((lists_alive z ctm).2 nid).symm
  simpa using hperm.length_eq

theorem length_withScores (score : Int → List Byte) : ∀ l :
    List (BitVec 32 × Int), (withScores score l).length = 2 * l.length
  | [] => rfl
  | e :: l => by
    have := length_withScores score l
    simp only [withScores, List.flatMap_cons, List.length_append, List.length_cons, List.length_nil] at this ⊢
    omega

/-- The members stand at the even places. -/
theorem getD_withScores : ∀ (l : List (BitVec 32 × Int)) (i : Nat) (h : i < l.length),
    (withScores score l).getD (2 * i) [] = decimal l[i].1.toNat
  | e :: l, 0, _ => rfl
  | e :: l, i + 1, h => by
    exact getD_withScores l i (Nat.lt_of_succ_lt_succ h)

/-- A node id below 2^31 is read as it was written. -/
theorem read_nid {nid : BitVec 32} (h : nid.toNat < 2 ^ 31) :
    BitVec.ofInt 32 (strconvParseInt 10 32 (decimal nid.toNat)) = nid := by
  have hmin : min (nid.toNat : Int) (2 ^ (32 - 1) - 1) = nid.toNat := by omega
  rw [parseInt_decimal (by decide), hmin, BitVec.ofInt_natCast, BitVec.ofNat_toNat, BitVec.setWidth_eq]

/-- Two steps at a time read the members. -/
theorem updateListendList_eq (h : ∀ e ∈ l, e.1.toNat < 2 ^ 31) :
    updateListendList (.ok (withScores score l)) = l.map Prod.fst := by
  have hlen : ((withScores score l).length + 2 - 1) / 2 = l.length := by
    rw [length_withScores]
    omega
  refine List.ext_getElem (by rw [updateListendList, readNodes, hlen]; simp) fun i h₁ h₂ => ?_
  have hi : i < l.length := by simpa using h₂
  simp only [updateListendList, readNodes, List.getElem_map, List.getElem_range', Nat.zero_add]
  rw [getD_withScores l i hi, read_nid (h _ (List.getElem_mem hi))]

/-- One step at a time reads the scores as well. -/
theorem length_listendListUpdate : (listendListUpdate (.ok (withScores score l))).length = 2 * l.length := by
  simp [listendListUpdate, readNodes, length_withScores]

/-- The chat room server's list is right, and the user server's only where no listener is alive. -/
theorem listend_lists_iff (z : ZSet (BitVec 32)) (ctm : Int) (score : Int → List Byte)
    (h : ∀ e ∈ z.list, e.1.toNat < 2 ^ 31) : Lists z ctm (updateListendList (.ok (withScores score (alive z ctm)))) ∧
      (Lists z ctm (listendListUpdate (.ok (withScores score (alive z ctm)))) ↔ ∀ e ∈ z.list, e.2 < ctm) := by
  have hlow : ∀ e ∈ alive z ctm, e.1.toNat < 2 ^ 31 := fun e he => h e (mem_alive.1 he).1
  constructor
  · rw [updateListendList_eq hlow]
    exact lists_alive z ctm
  · constructor
    · intro hl e he
      have hlen := hl.length_eq
      rw [length_listendListUpdate] at hlen
      have hnil : alive z ctm = [] := List.length_eq_zero_iff.1 (by omega)
      by_contra hge
      exact List.not_mem_nil (hnil ▸ mem_alive.2 ⟨he, not_lt.1 hge⟩)
    · intro hdead
      have hnil : alive z ctm = [] := List.eq_nil_iff_forall_not_mem.2 fun e he => absurd (hdead e (mem_alive.1 he).1)
        (not_lt.2 (mem_alive.1 he).2)
      have hempty : listendListUpdate (.ok (withScores score [])) = [] := by
        simp [listendListUpdate, readNodes, withScores]
      have := lists_alive z ctm
      rw [hnil] at this ⊢
      rw [hempty]
      exact this

/-- One listener, number 7, that is alive until 100. -/
def oneNode : ZSet (BitVec 32) := ⟨[(7, 100)], by decide⟩

theorem listend_lists_one : Lists oneNode 50 (updateListendList (.ok (withScores decimalInt (alive oneNode 50)))) ∧
    (Lists oneNode 50 (listendListUpdate (.ok (withScores decimalInt (alive oneNode 50)))) ↔
    ∀ e ∈ oneNode.list, e.2 < 50) :=
  listend_lists_iff oneNode 50 decimalInt (by decide)

/-- The user server takes its score for a second listener. -/
theorem listendListUpdate_score : ¬∀ (z : ZSet (BitVec 32)) (ctm : Int) (score : Int → List Byte),
    (∀ e ∈ z.list, e.1.toNat < 2 ^ 31) → Lists z ctm (listendListUpdate (.ok (withScores score (alive z ctm)))) ∧
      Lists z ctm (updateListendList (.ok (withScores score (alive z ctm)))) := by
  intro h
  have hread : listendListUpdate (.ok (withScores decimalInt (alive oneNode 50))) = [7, 100] := by decide
  have hmem := (h oneNode 50 decimalInt (by decide)).1.2 100
  rw [hread] at hmem
  obtain ⟨s, hs, -⟩ := hmem.1 (by decide)
  exact absurd (Prod.mk.inj (List.mem_singleton.1 hs)).1 (by decide)

end BeehiveIm.Usrsvr

/-
`QuerySeqBySid` (`alloc_seq.go`), one call after the other: the arrays of the sections and of the
sessions, each entry a map, and the rows of IM_SEQ_GEN_TAB. An index outside its array is a panic
(`none`). What goroutines do to one another is the subject of `Section`.
-/
import BeehiveIm.Seqsvr.Section

namespace BeehiveIm.Seqsvr

/-- `comm.SECTION_SID_NUM` -/
def SECTION_SID_NUM : Nat := 100000
def SECTION_LIST_LEN : Nat := 100000
def USER_LIST_LEN : Nat := 100

/-- `SessionItem` -/
structure SessionItem where
  sid : BitVec 64
  seq : Nat
  max : Nat

/-- `ctx.ctrl` and the table. -/
structure SeqSvrCntx where
  session : Nat → BitVec 64 → Option SessionItem
  sections : Nat → Nat → Option SectionItem
  rows : Nat → Option Nat

/-- `uint64(sid) / comm.SECTION_SID_NUM` -/
def secidOf (sid : BitVec 64) : Nat := sid.toNat / SECTION_SID_NUM

/-- `secid/SECTION_LIST_LEN` -/
def sectionIdx (secid : Nat) : Nat := secid / SECTION_LIST_LEN

/-- `sid%USER_LIST_LEN` -/
def sessionIdx (sid : BitVec 64) : Nat := sid.toNat % USER_LIST_LEN

namespace SeqSvrCntx

def init : SeqSvrCntx := ⟨fun _ _ => none, fun _ _ => none, fun _ => none⟩

/-- `ctx.ctrl.section[secid/SECTION_LIST_LEN].item[secid]`, where the index is in range. -/
def item (S : SeqSvrCntx) (secid : Nat) : Option SectionItem := S.sections (sectionIdx secid) secid

def putSection (S : SeqSvrCntx) (secid : Nat) (item : SectionItem) : SeqSvrCntx :=
  let items := Function.update (S.sections (sectionIdx secid)) secid (some item)
  { S with sections := Function.update S.sections (sectionIdx secid) items }

def putSession (S : SeqSvrCntx) (sid : BitVec 64) (item : SessionItem) : SeqSvrCntx :=
  let items := Function.update (S.session (sessionIdx sid)) sid (some item)
  { S with session := Function.update S.session (sessionIdx sid) items }

/-- `alloc_seq_from_db`; `db` is the error of the database, if there is one. -/
def alloc (S : SeqSvrCntx) (db : Option String) (secid : Nat) : SeqSvrCntx × Except String (Nat × Nat) :=
  match db with
  | some err => (S, .error err)
  | none =>
    let (seq, row) := allocSeqFromDb (S.rows secid)
    ({ S with rows := Function.update S.rows secid row }, .ok (seq, seq + 1000))

/-- `section_add`; back at `AGAIN`, the look-up finds what has been put there. -/
def sectionAdd (S : SeqSvrCntx) (db : Option String) (secid : Nat) : Option (SeqSvrCntx × Except String Unit) :=
  if sectionIdx secid < SECTION_LIST_LEN then
    match S.item secid with
    | some _ => some (S, .ok ())
    | none =>
      match S.alloc db secid with
      | (S, .error err) => some (S, .error err)
      | (S, .ok (min, max)) => some (S.putSection secid { min := min, max := max }, .ok ())
  else none

/-- `section_find` -/
def sectionFind (S : SeqSvrCntx) (db : Option String) (secid : Nat) :
    Option (SeqSvrCntx × Except String (Nat × Nat)) :=
  if sectionIdx secid < SECTION_LIST_LEN then
    match S.item secid with
    | some item => some (S, .ok (item.min, item.max))
    | none =>
      match S.alloc db secid with
      | (S, .error err) => some (S, .error err)
      | (S, .ok (min, max)) => some (S.putSection secid { min := min, max := max }, .ok (min, max))
  else none

/-- `query_seq_by_sid`; back at `SESSION`, the look-up finds what has been put there. -/
def sessionSeq (S : SeqSvrCntx) (db : Option String) (secid : Nat) (sid : BitVec 64) :
    Option (SeqSvrCntx × Except String Nat) :=
  if sessionIdx sid < USER_LIST_LEN then
    match S.session (sessionIdx sid) sid with
    | some item => some (S, .ok item.seq)
    | none =>
      match S.sectionFind db secid with
      | none => none
      | some (S, .error err) => some (S, .error err)
      | some (S, .ok (min, max)) => some (S.putSession sid ⟨sid, min, max⟩, .ok min)
  else none

/-- `QuerySeqBySid` -/
def querySeqBySid (S : SeqSvrCntx) (db : Option String) (sid : BitVec 64) : Option (SeqSvrCntx × Except String Nat) :=
  match S.sectionAdd db (secidOf sid) with
  | none => none
  | some (S, .error err) => some (S, .error err)
  | some (S, .ok ()) => S.sessionSeq db (secidOf sid) sid

/-! ## One call -/

variable {S S' : SeqSvrCntx} {db : Option String} {secid : Nat} {sid : BitVec 64}

theorem sessionIdx_lt (sid : BitVec 64) : sessionIdx sid < USER_LIST_LEN := Nat.mod_lt _ (by decide)

/-- The second quotient is in range below 10^15. -/
theorem sectionIdx_lt_iff (sid : BitVec 64) : sectionIdx (secidOf sid) < SECTION_LIST_LEN ↔ sid.toNat < 10 ^ 15 := by
  unfold sectionIdx secidOf SECTION_LIST_LEN SECTION_SID_NUM
  omega

@[simp] theorem item_putSection (item : SectionItem) : (S.putSection secid item).item secid = some item := by
  simp [SeqSvrCntx.item, putSection]

/-- Once `section_add` has succeeded the section has its item. -/
theorem sectionAdd_spec (S : SeqSvrCntx) (db : Option String) (h : sectionIdx secid < SECTION_LIST_LEN) :
    ∃ S' ret, S.sectionAdd db secid = some (S', ret) ∧ (ret = .ok () → (S'.item secid).isSome) := by
  rw [sectionAdd, if_pos h]
  cases hitem : S.item secid with
  | some item => exact ⟨S, .ok (), rfl, fun _ => by rw [hitem]; rfl⟩
  | none =>
    cases db with
    | some err => exact ⟨S, .error err, rfl, nofun⟩
    | none => exact ⟨_, _, rfl, fun _ => by rw [item_putSection]; rfl⟩

/-- With the item there, neither function goes to the database, and the items stay as they are. -/
theorem sessionSeq_spec (S : SeqSvrCntx) (db : Option String) (sid : BitVec 64)
    (h : sectionIdx secid < SECTION_LIST_LEN) (hitem : (S.item secid).isSome) :
    ∃ S' seq, S.sessionSeq db secid sid = some (S', .ok seq) ∧ S'.sections = S.sections := by
  obtain ⟨item, hitem⟩ := Option.isSome_iff_exists.1 hitem
  rw [sessionSeq, if_pos (sessionIdx_lt sid)]
  cases S.session (sessionIdx sid) sid with
  | some item => exact ⟨S, item.seq, rfl, rfl⟩
  | none =>
    rw [sectionFind, if_pos h, hitem]
    exact ⟨_, _, rfl, rfl⟩

/-- A session of a section that has its item is answered without a change to the items. -/
theorem querySeqBySid_again (h : sectionIdx (secidOf sid) < SECTION_LIST_LEN) (hitem : (S.item (secidOf sid)).isSome) :
    ∃ S' seq, S.querySeqBySid db sid = some (S', .ok seq) ∧ S'.sections = S.sections := by
  have hadd : S.sectionAdd db (secidOf sid) = some (S, .ok ()) := by
    obtain ⟨item, hitem⟩ := Option.isSome_iff_exists.1 hitem
    rw [sectionAdd, if_pos h, hitem]
  rw [querySeqBySid, hadd]
  exact S.sessionSeq_spec db sid h hitem

/-- A call that is in range does not panic; if it succeeds, the section has its item. -/
theorem querySeqBySid_spec (S : SeqSvrCntx) (db : Option String) (h : sectionIdx (secidOf sid) < SECTION_LIST_LEN) :
    ∃ S' ret, S.querySeqBySid db sid = some (S', ret) ∧ ∀ seq, ret = .ok seq → (S'.item (secidOf sid)).isSome := by
  obtain ⟨S₁, ret, hadd, hitem⟩ := S.sectionAdd_spec db h
  rw [querySeqBySid, hadd]
  cases ret with
  | error err => exact ⟨S₁, .error err, rfl, nofun⟩
  | ok _ =>
    obtain ⟨S', seq, hseq, hsections⟩ := S₁.sessionSeq_spec db sid h (hitem rfl)
    refine ⟨S', .ok seq, hseq, fun _ _ => ?_⟩
    rw [SeqSvrCntx.item, hsections]
    exact hitem rfl

/-- The call stays inside the arrays, and once it has succeeded every session of the section gets
along with the item that is there. -/
def InRange (S : SeqSvrCntx) (db : Option String) (sid : BitVec 64) : Prop :=
  S.querySeqBySid db sid ≠ none ∧
    ∀ S₁ seq, S.querySeqBySid db sid = some (S₁, .ok seq) → ∀ (db' : Option String) (sid' : BitVec 64),
      secidOf sid' = secidOf sid →
        (S₁.item (secidOf sid')).isSome ∧ S₁.item (secidOf sid') = S₁.item (secidOf sid) ∧
          ∃ S₂ seq', S₁.querySeqBySid db' sid' = some (S₂, .ok seq') ∧ S₂.sections = S₁.sections

/-- Exactly the sids below 10^15 are looked up inside the array of the sections. -/
theorem querySeqBySid_inRange_iff (S : SeqSvrCntx) (db : Option String) (sid : BitVec 64) :
    S.InRange db sid ↔ sid.toNat < 10 ^ 15 := by
  rw [← sectionIdx_lt_iff]
  constructor
  · rintro ⟨hne, -⟩
    by_contra hout
    exact hne (by rw [querySeqBySid, sectionAdd, if_neg hout])
  · intro h
    obtain ⟨S', ret, hcall, hitem⟩ := S.querySeqBySid_spec db h
    refine ⟨by rw [hcall]; exact nofun, ?_⟩
    intro S₁ seq hok db' sid' hsec
    rw [hcall, Option.some.injEq, Prod.mk.injEq] at hok
    obtain ⟨rfl, rfl⟩ := hok
    rw [hsec]
    refine ⟨hitem seq rfl, rfl, ?_⟩
    exact querySeqBySid_again (by rw [hsec]; exact h) (by rw [hsec]; exact hitem seq rfl)

/-- The first sid out of range, and one that is negative. -/
theorem querySeqBySid_out_of_range :
    ¬(∀ (S : SeqSvrCntx) (db : Option String) (sid : BitVec 64), S.InRange db sid) ∧
      init.querySeqBySid none 1000000000000000#64 = none ∧ init.querySeqBySid none (-1#64) = none :=
  ⟨fun h => (h init none (-1#64)).1 rfl, rfl, rfl⟩

end SeqSvrCntx

end BeehiveIm.Seqsvr

/-
The reports of listeners and of forwarders (`exec/monitor/controllers/mesg.go`), handled one at a
time, with all that they write. A field that a hash does not have is read as the empty string.
-/
import BeehiveIm.Monitor
import BeehiveIm.Lib.Keys
import BeehiveIm.Lib.Strconv

namespace BeehiveIm.Monitor

open BeehiveIm.Lib

instance : Text String := ⟨String.toList⟩

/-- The rest of a `MesgLsndInfo` -/
structure LsndInfo extends MesgLsndInfo where
  type : BitVec 32
  opid : BitVec 32
  connections : BitVec 32

structure MesgFrwdInfo where
  nid : BitVec 32
  ip : String
  forwardPort : BitVec 32
  backendPort : BitVec 32

/-- `im:frwd:nid:%d:attr` -/
structure FrwdAttr where
  addr : Option String
  bcPort : Option (BitVec 32)
  fwdPort : Option (BitVec 32)

/-- The keys of listeners, by node, type, nation and operator; and those of forwarders. -/
structure Tables where
  store : Store
  type : BitVec 32 → Option (BitVec 32)
  connections : BitVec 32 → Option (BitVec 32)
  nids : ZSet (BitVec 32)
  types : ZSet (BitVec 32)
  nations : BitVec 32 → ZSet String
  ops : BitVec 32 × String → ZSet (BitVec 32)
  opToNid : BitVec 32 × String × BitVec 32 → ZSet (BitVec 32)
  ips : BitVec 32 × String × BitVec 32 → ZSet String
  frwd : BitVec 32 → FrwdAttr
  frwdNids : ZSet (BitVec 32)

/-- A report, with the node of its header. -/
inductive Report where
  | lsnd (head : BitVec 32) (body : Except String LsndInfo)
  | frwd (head : BitVec 32) (body : Except String MesgFrwdInfo)

/-- A report that is well formed. -/
inductive Info where
  | lsnd (req : LsndInfo)
  | frwd (req : MesgFrwdInfo)

def chatOpTtl : Int := 30
def chatNidTtl : Int := 30

/-- `frwd_info_isvalid` -/
def frwdInfoIsvalid (req : MesgFrwdInfo) : Bool := req.forwardPort ≠ 0 ∧ req.backendPort ≠ 0 ∧ req.ip ≠ ""

/-- `lsnd_info_parse` and `frwd_info_parse` -/
def infoParse {α : Type} (isvalid : α → Bool) (head : BitVec 32) (body : Except String α) : Option α :=
  if head = 0 then none
  else
    match body with
    | .error _ => none
    | .ok req => if isvalid req then some req else none

def Report.parse : Report → Option Info
  | .lsnd head body => (infoParse (fun req => lsndInfoIsvalid req.toMesgLsndInfo) head body).map .lsnd
  | .frwd head body => (infoParse frwdInfoIsvalid head body).map .frwd

/-- A port as `Strings` gives it, by `ParseInt` without a look at its error. -/
def parsePort (field : Option (BitVec 32)) : BitVec 32 :=
  BitVec.ofInt 32 (strconvParseInt 10 32 ((field.map fun port => decimal port.toNat).getD []))

namespace Tables

def empty : Tables where
  store := .empty
  type _ := none
  connections _ := none
  nids := ∅
  types := ∅
  nations _ := ∅
  ops _ := ∅
  opToNid _ := ∅
  ips _ := ∅
  frwd _ := ⟨none, none, none⟩
  frwdNids := ∅

/-- The pipeline of `lsnd_info_handler` -/
def lsndSend (s : Tables) (req : LsndInfo) (ttl : Int) : Tables where
  store := ((register req.nid req.addr).run exec s.store).2
  type := put s.type req.nid fun _ => some req.type
  connections := put s.connections req.nid fun _ => some req.connections
  nids := s.nids.add ttl req.nid
  types := s.types.add ttl req.type
  nations := put s.nations req.type (·.add ttl req.nation)
  ops := put s.ops (req.type, req.nation) (·.add ttl req.opid)
  opToNid := put s.opToNid (req.type, req.nation, req.opid) (·.add ttl req.nid)
  ips := put s.ips (req.type, req.nation, req.opid) (·.add ttl req.addr)
  frwd := s.frwd
  frwdNids := s.frwdNids

/-- `lsnd_info_handler` -/
def lsndInfoHandler (s : Tables) (req : LsndInfo) (now : Int) : Tables :=
  match (lsndInfoHasConflict req.toMesgLsndInfo).run exec s.store with
  | (.error _, store) => { s with store }
  | (.ok has, store) => if has then { s with store } else { s with store }.lsndSend req (now + chatOpTtl)

/-- `frwd_info_has_conflict`; what it returns besides an error is not looked at. -/
def frwdInfoHasConflict (s : Tables) (req : MesgFrwdInfo) : Except String Bool :=
  let vals := s.frwd req.nid
  if vals.addr.getD "" ≠ req.ip then .error ("Address is conflict! nid:" ++ toString req.nid.toNat)
  else if parsePort vals.bcPort ≠ req.backendPort then
    .error ("Backend port is conflict! nid:" ++ toString req.nid.toNat ++ " port:" ++
      toString (parsePort vals.bcPort).toInt ++ "/" ++ toString req.backendPort.toNat)
  else if parsePort vals.fwdPort ≠ req.forwardPort then
    .error ("Forward port is conflict! nid:" ++ toString req.nid.toNat ++ " port:" ++
      toString (parsePort vals.fwdPort).toInt ++ "/" ++ toString req.forwardPort.toNat)
  else .ok false

/-- The pipeline of `frwd_info_handler` -/
def frwdSend (s : Tables) (req : MesgFrwdInfo) (ttl : Int) : Tables :=
  { s with
    frwd := put s.frwd req.nid fun vals =>
      ⟨vals.addr <|> some req.ip, vals.bcPort <|> some req.backendPort, vals.fwdPort <|> some req.forwardPort⟩
    frwdNids := s.frwdNids.add ttl req.nid }

/-- `frwd_info_handler` -/
def frwdInfoHandler (s : Tables) (req : MesgFrwdInfo) (now : Int) : Tables :=
  match s.frwdInfoHasConflict req with
  | .error _ => s
  | .ok has => if has then s else s.frwdSend req (now + chatNidTtl)

/-- `MonLsndInfoHandler` and `MonFrwdInfoHandler` -/
def handle (s : Tables) (report : Report) (now : Int) : Tables :=
  match report.parse with
  | none => s
  | some (.lsnd req) => s.lsndInfoHandler req now
  | some (.frwd req) => s.frwdInfoHandler req now

/-- Reports at their times -/
def next (s : Tables) (r : Report × Int) : Tables := s.handle r.1 r.2

/-- A different address is registered under the node, or the address of a listener under another
node. -/
def Conflicts (s : Tables) : Info → Prop
  | .lsnd req => (∃ addr, s.store.nidToAddr req.nid = some addr ∧ addr ≠ req.addr) ∨
      ∃ nid, s.store.addrToNid req.addr = some nid ∧ nid ≠ req.nid
  | .frwd req => (∃ ip, (s.frwd req.nid).addr = some ip ∧ ip ≠ req.ip) ∨
      (∃ port, (s.frwd req.nid).bcPort = some port ∧ port ≠ req.backendPort) ∨
      ∃ port, (s.frwd req.nid).fwdPort = some port ∧ port ≠ req.forwardPort

/-- Until when a node counts as alive. -/
def expiry (s : Tables) : Info → Option Int
  | .lsnd req => s.nids.score req.nid
  | .frwd req => s.frwdNids.score req.nid

/-- A report without conflict is accepted, its node's expiry renewed; one with a
conflict changes no key. -/
structure Settled (s s' : Tables) (info : Info) (now : Int) : Prop where
  accepted : ¬s.Conflicts info → s'.expiry info = some (now + 30)
  rejected : s.Conflicts info → s' = s

end Tables

/-! ## Listeners -/

theorem nidHasConflict_run (req : MesgLsndInfo) (s : Store) : ∃ has, (nidHasConflict req).run exec s = (.ok has, s) ∧
    (has = true ↔ ∃ addr, s.nidToAddr req.nid = some addr ∧ addr ≠ req.addr) := by
  have hget : exec (.hgetNid req.nid) s = (s.nidToAddr req.nid, s) := rfl
  unfold nidHasConflict redo
  cases hnid : s.nidToAddr req.nid with
  | none =>
    have hexists : exec (.hexistsNid req.nid) s = (false, s) := by simp [exec, hnid]
    refine ⟨false, by simp [hexists], ?_⟩
    simp
  | some addr =>
    have hexists : exec (.hexistsNid req.nid) s = (true, s) := by simp [exec, hnid]
    refine ⟨decide (addr ≠ req.addr), by simp [hexists, hget, hnid], ?_⟩
    simp

/-- The check finds the conflicts, and changes nothing. -/
theorem lsndInfoHasConflict_run (req : LsndInfo) (s : Tables) :
    ∃ has, (lsndInfoHasConflict req.toMesgLsndInfo).run exec s.store = (.ok has, s.store) ∧
      (has = true ↔ s.Conflicts (.lsnd req)) := by
  obtain ⟨has, hrun, hhas⟩ := nidHasConflict_run req.toMesgLsndInfo s.store
  have hget : exec (.hgetAddr req.addr) s.store = (s.store.addrToNid req.addr, s.store) := rfl
  unfold lsndInfoHasConflict redo
  cases haddr : s.store.addrToNid req.addr with
  | none =>
    have hexists : exec (.hexistsAddr req.addr) s.store = (false, s.store) := by simp [exec, haddr]
    refine ⟨has, by simpa [hexists] using hrun, hhas.trans ⟨.inl, ?_⟩⟩
    rintro (hother | ⟨nid, hnid, -⟩)
    · exact hother
    · cases haddr.symm.trans hnid
  | some nid =>
    have hexists : exec (.hexistsAddr req.addr) s.store = (true, s.store) := by simp [exec, haddr]
    by_cases hne : nid = req.nid
    · subst hne
      refine ⟨has, by simpa [hexists, hget, haddr] using hrun, hhas.trans ⟨.inl, ?_⟩⟩
      rintro (hother | ⟨nid, hnid, hne⟩)
      · exact hother
      · exact absurd (Option.some.inj (hnid.symm.trans haddr)) hne
    · refine ⟨true, by simp [hexists, hget, haddr, hne], iff_of_true rfl (.inr ⟨nid, haddr, hne⟩)⟩

namespace Tables

variable {s : Tables}

/-- A listener's report is accepted just where it has no conflict. -/
theorem lsndInfoHandler_settled (s : Tables) (req : LsndInfo) (now : Int) :
    s.Settled (s.lsndInfoHandler req now) (.lsnd req) now := by
  obtain ⟨has, hrun, hhas⟩ := lsndInfoHasConflict_run req s
  unfold lsndInfoHandler
  rw [hrun]
  dsimp only
  constructor
  · intro hfree
    rw [if_neg (mt hhas.mp hfree)]
    exact ZSet.score_add.trans (if_pos rfl)
  · intro hconflict
    rw [if_pos (hhas.mpr hconflict)]

/-- Nor does it touch what is known of forwarders. -/
theorem lsndInfoHandler_frwd (s : Tables) (req : LsndInfo) (now : Int) :
    (s.lsndInfoHandler req now).frwd = s.frwd ∧ (s.lsndInfoHandler req now).frwdNids = s.frwdNids := by
  unfold lsndInfoHandler
  split
  · exact ⟨rfl, rfl⟩
  · split
    · exact ⟨rfl, rfl⟩
    · exact ⟨rfl, rfl⟩

/-! ## Forwarders -/

/-- No forwarder is registered. -/
structure Vacant (s : Tables) : Prop where
  frwd : ∀ nid, s.frwd nid = ⟨none, none, none⟩
  nids : s.frwdNids = ∅

/-- A well-formed report has an address, so it is taken only for a node that is registered with the
same one; a port is compared with what is read back of it. -/
theorem frwdInfoHandler_eq {req : MesgFrwdInfo} (hvalid : frwdInfoIsvalid req) (s : Tables) (now : Int) :
    s.frwdInfoHandler req now = if (s.frwd req.nid).addr = some req.ip ∧
        parsePort (s.frwd req.nid).bcPort = req.backendPort ∧ parsePort (s.frwd req.nid).fwdPort = req.forwardPort then
      s.frwdSend req (now + chatNidTtl) else s := by
  have hip : req.ip ≠ "" := (of_decide_eq_true hvalid).2.2
  have haddr : (s.frwd req.nid).addr.getD "" = req.ip ↔ (s.frwd req.nid).addr = some req.ip := by
    cases (s.frwd req.nid).addr with
    | none => exact iff_of_false hip.symm (by simp)
    | some ip => simp
  unfold frwdInfoHandler frwdInfoHasConflict
  dsimp only
  by_cases h : (s.frwd req.nid).addr = some req.ip
  · by_cases hbc : parsePort (s.frwd req.nid).bcPort = req.backendPort
    · by_cases hfwd : parsePort (s.frwd req.nid).fwdPort = req.forwardPort
      · simp [h, hbc, hfwd]
      · simp [h, hbc, hfwd]
    · simp [h, hbc]
  · simp [haddr, h]

theorem Vacant.frwdInfoHandler (hs : s.Vacant) {req : MesgFrwdInfo} (hvalid : frwdInfoIsvalid req) (now : Int) :
    s.frwdInfoHandler req now = s := by
  rw [frwdInfoHandler_eq hvalid, hs.frwd]
  refine if_neg ?_
  rintro ⟨⟨⟩, -⟩

/-- The node of a forwarder is new, and still it is not accepted. -/
theorem Vacant.not_settled (hs : s.Vacant) (req : MesgFrwdInfo) (now : Int) : ¬s.Settled s (.frwd req) now := by
  intro hsettled
  have hfree : ¬s.Conflicts (.frwd req) := by
    unfold Conflicts
    dsimp only
    rw [hs.frwd]
    rintro (⟨_, ⟨⟩, _⟩ | ⟨_, ⟨⟩, _⟩ | ⟨_, ⟨⟩, _⟩)
  have hexpiry := hsettled.accepted hfree
  unfold expiry at hexpiry
  rw [hs.nids] at hexpiry
  cases hexpiry

theorem valid_of_parse {report : Report} {req : MesgFrwdInfo} (h : report.parse = some (.frwd req)) :
    frwdInfoIsvalid req := by
  cases report with
  | lsnd head body =>
    obtain ⟨_, -, ⟨⟩⟩ := Option.map_eq_some_iff.mp h
  | frwd head body =>
    obtain ⟨req', hparse, ⟨⟩⟩ := Option.map_eq_some_iff.mp h
    unfold infoParse at hparse
    split at hparse
    · cases hparse
    · split at hparse
      · cases hparse
      · split at hparse
        · rename_i hvalid
          cases hparse
          exact hvalid
        · cases hparse

theorem Vacant.next (hs : s.Vacant) (r : Report × Int) : (s.next r).Vacant := by
  unfold Tables.next handle
  split
  · exact hs
  · rename_i req _
    obtain ⟨hfrwd, hnids⟩ := s.lsndInfoHandler_frwd req r.2
    exact ⟨fun nid => by rw [hfrwd, hs.frwd], hnids.trans hs.nids⟩
  · rename_i req hparse
    rw [hs.frwdInfoHandler (valid_of_parse hparse)]
    exact hs

theorem vacant_run : ∀ (reports : List (Report × Int)) {s : Tables}, s.Vacant → (reports.foldl Tables.next s).Vacant
  | [], _, hs => hs
  | r :: reports, _, hs => vacant_run reports (hs.next r)

theorem vacant_empty : empty.Vacant := ⟨fun _ => rfl, rfl⟩

/-- Whatever has been reported, a report is settled right just where it is not one of a
forwarder. -/
theorem settled_iff (reports : List (Report × Int)) (report : Report) (now : Int) :
    let s := reports.foldl next empty
    (∀ info, report.parse = some info → s.Settled (s.handle report now) info now) ↔
      ∀ req, report.parse ≠ some (.frwd req) := by
  intro s
  have hs : s.Vacant := vacant_run reports vacant_empty
  constructor
  · intro hsettled req hparse
    have hreq := hsettled (.frwd req) hparse
    unfold handle at hreq
    rw [hparse] at hreq
    dsimp only at hreq
    rw [hs.frwdInfoHandler (valid_of_parse hparse)] at hreq
    exact hs.not_settled req now hreq
  · intro hlsnd info hparse
    cases info with
    | frwd req => exact absurd hparse (hlsnd req)
    | lsnd req =>
      unfold handle
      rw [hparse]
      exact s.lsndInfoHandler_settled req now

/-- The first forwarder to report -/
theorem first_forwarder_refused : ¬∀ (reports : List (Report × Int)) (report : Report) (now : Int),
    let s := reports.foldl next empty
    ∀ info, report.parse = some info → s.Settled (s.handle report now) info now := by
  intro hall
  let req : MesgFrwdInfo := ⟨1, "10.0.0.1", 28888, 28889⟩
  have hsettled : empty.Settled (empty.frwdInfoHandler req 0) (.frwd req) 0 := hall [] (.frwd 1 (.ok req)) 0 _ rfl
  rw [vacant_empty.frwdInfoHandler (by decide)] at hsettled
  exact vacant_empty.not_settled req 0 hsettled

end Tables

end BeehiveIm.Monitor

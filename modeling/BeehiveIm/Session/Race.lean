/-
The handlers of the user server and the sweep of the tasker at once. A step is one Redis command;
the commands of a pipeline are carried out one by one too. The world counts the additions to the
expiry set, so that each score, and the login that came with it, has a number.
-/
import BeehiveIm.Session
import BeehiveIm.Lib.Run
import Mathlib.Data.Fintype.Defs

namespace BeehiveIm.Session

open BeehiveIm.Lib

/-- What a clean-up goes by: the connection it is for, or the number of the score that has
expired. -/
inductive Cause where
  | conn (cid : BitVec 64) (nid : BitVec 32)
  | sweep (score : Nat)
  deriving DecidableEq

/-- What a client does after a clean-up. -/
inductive Next where
  | done
  | online (head : MesgHeader) (req : MesgOnline) (now : Int) (seq : Bool)
  /-- `clean_sid_zset` in the loop over a page, each id with the number of its score; `full`
  is whether the page was. -/
  | sweep (ctm : Int) (off : Nat) (full : Bool) (rest : List (BitVec 64 × Nat))
  deriving DecidableEq

/-- Where a client stands: the command it is about to send. -/
inductive Pc where
  | idle
  /-- `online_handler`: `GetSidAttr`, then the commands of the pipeline -/
  | online (head : MesgHeader) (req : MesgOnline) (now : Int) (seq : Bool)
  | zaddSid (head : MesgHeader) (req : MesgOnline) (now : Int)
  | zaddUid (head : MesgHeader) (req : MesgOnline) (now : Int) (score : Nat)
  | hmset (head : MesgHeader) (req : MesgOnline) (score : Nat)
  | sadd (req : MesgOnline)
  /-- `UpdateSessionData`: `GetSidAttr`, then the pipeline -/
  | ping (head : MesgHeader) (now : Int)
  | pingSid (sid uid : BitVec 64) (now : Int)
  | pingUid (uid : BitVec 64) (now : Int)
  /-- `CleanSessionData`: `GetSidAttr`, and what `CleanSessionDataBySid` has too -/
  | clean (sid cid : BitVec 64) (nid : BitVec 32) (next : Next)
  | del (sid : BitVec 64) (cause : Cause) (next : Next)
  | zrem (sid : BitVec 64) (next : Next)
  /-- `clean_sid_zset` before it reads a page -/
  | page (ctm : Int) (off : Nat)
  deriving DecidableEq

/-- The first command of what comes next. -/
def Next.pc : Next → Pc
  | .done => .idle
  | .online head req now seq => if seq then .zaddSid head req now else .idle
  | .sweep ctm off full [] => if full then .page ctm (off + chatBatNum) else .idle
  | .sweep ctm off full ((sid, score) :: rest) => .del sid (.sweep score) (.sweep ctm off full rest)

structure World (τ : Type) where
  store : Store
  pc : τ → Pc
  /-- How many times an id was added to `sid:zset`. -/
  clock : Nat
  /-- The number of the last time each id was. -/
  added : BitVec 64 → Nat
  /-- The number that goes with the attributes of each session. -/
  login : BitVec 64 → Nat

inductive Act where
  | online (head : MesgHeader) (req : MesgOnline) (now : Int) (seq : Bool)
  | ping (head : MesgHeader) (now : Int)
  | offline (head : MesgHeader)
  | sweep (ctm : Int)
  /-- the next command -/
  | go
  deriving DecidableEq

namespace World

variable {τ : Type}

def init (τ : Type) : World τ := ⟨.empty, fun _ => .idle, 0, fun _ => 0, fun _ => 0⟩

/-- `ZADD sid:zset` -/
def zadd (W : World τ) (ttl : Int) (sid : BitVec 64) : World τ :=
  { W with
    store := { W.store with sidZset := W.store.sidZset.add ttl sid }
    clock := W.clock + 1
    added := Function.update W.added sid (W.clock + 1) }

/-- `ZADD uid:zset` -/
def zaddUid (W : World τ) (ttl : Int) (uid : BitVec 64) : World τ :=
  { W with store := { W.store with uidZset := W.store.uidZset.add ttl uid } }

/-- `HMSET` of the attributes, by a login with this number -/
def hmset (W : World τ) (sid : BitVec 64) (attr : SidAttr) (score : Nat) : World τ :=
  { W with
    store := { W.store with attr := Function.update W.store.attr sid (some attr) }
    login := Function.update W.login sid score }

/-- `SADD` -/
def sadd (W : World τ) (uid sid : BitVec 64) : World τ :=
  { W with store := { W.store with uidToSid := Function.update W.store.uidToSid uid (insert sid (W.store.uidToSid uid)) } }

/-- `DEL` of the attributes -/
def del (W : World τ) (sid : BitVec 64) : World τ :=
  { W with store := { W.store with attr := Function.update W.store.attr sid none } }

/-- `ZREM sid:zset` -/
def zrem (W : World τ) (sid : BitVec 64) : World τ :=
  { W with store := { W.store with sidZset := W.store.sidZset.rem sid } }

/-- The ids of a page as the tasker reads them, each with the number of the score it goes by. -/
def expired (W : World τ) (ctm : Int) (off : Nat) : List (BitVec 64 × Nat) :=
  (Store.expiredPage W.store.sidZset ctm off).map fun e => (parseInt e.1, W.added e.1)

variable [DecidableEq τ]

def goto (W : World τ) (t : τ) (pc : Pc) : World τ := { W with pc := Function.update W.pc t pc }

/-- The next command of a client, and where it stands after it. -/
def go (W : World τ) (t : τ) : Option (World τ) :=
  match W.pc t with
  | .idle => none
  | .online head req now seq =>
    let attr := W.store.getSidAttr req.sid
    if Store.conflict attr head req then
      some (W.goto t (.clean head.sid attr.cid attr.nid (.online head req now seq)))
    else some (W.goto t (Next.online head req now seq).pc)
  | .zaddSid head req now =>
    some ((W.zadd (now + chatSidTtl) req.sid).goto t (.zaddUid head req now (W.clock + 1)))
  | .zaddUid head req now score => some ((W.zaddUid (now + chatSidTtl) req.uid).goto t (.hmset head req score))
  | .hmset head req score => some ((W.hmset req.sid ⟨head.cid, req.uid, head.nid⟩ score).goto t (.sadd req))
  | .sadd req => some ((W.sadd req.uid req.sid).goto t .idle)
  | .ping head now =>
    let attr := W.store.getSidAttr head.sid
    if attr.uid = 0 ∨ head.nid ≠ attr.nid ∨ head.cid ≠ attr.cid then
      some (W.goto t (.clean head.sid head.cid head.nid .done))
    else some (W.goto t (.pingSid head.sid attr.uid now))
  | .pingSid sid uid now => some ((W.zadd (now + chatSidTtl) sid).goto t (.pingUid uid now))
  | .pingUid uid now => some ((W.zaddUid (now + chatSidTtl) uid).goto t .idle)
  | .clean sid cid nid next =>
    let attr := W.store.getSidAttr sid
    some (W.goto t (if attr.cid ≠ cid ∨ attr.nid ≠ nid then next.pc else .del sid (.conn cid nid) next))
  | .del sid _ next => some ((W.del sid).goto t (.zrem sid next))
  | .zrem sid next => some ((W.zrem sid).goto t next.pc)
  | .page ctm off =>
    let page := W.expired ctm off
    some (W.goto t (Next.sweep ctm off (¬page.length < chatBatNum) page).pc)

/-- A client that is in no call starts one. -/
def call : Act → Pc
  | .online head req now seq => .online head req now seq
  | .ping head now => .ping head now
  | .offline head => .clean head.sid head.cid head.nid .done
  | .sweep ctm => .page ctm 0
  | .go => .idle

def step (W : World τ) (o : τ × Act) : Option (World τ) :=
  match o.2, W.pc o.1 with
  | .go, _ => W.go o.1
  | a, .idle => some (W.goto o.1 (call a))
  | _, _ => none

end World

end BeehiveIm.Session

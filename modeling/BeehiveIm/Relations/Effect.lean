/-
What the blacklist and gag requests of a user come to. Each of the four handlers decodes
into a message that nobody has allocated, so a request with a good header goes no further,
and the lists stay as they are.
-/
import BeehiveIm.Relations.Authority
import BeehiveIm.Lib.Run

namespace BeehiveIm.Relations

open BeehiveIm.Lib
open BeehiveIm.Room (isValid)

def mesgHeadSize : Nat := 52

/-- `Uint32` and `Uint64` of `binary.BigEndian`, for the bytes from `i` to `j` -/
def beUint {w : Nat} (data : List (BitVec 8)) (i j : Nat) : BitVec w :=
  .ofNat w (((data.drop i).take (j - i)).foldl (fun n b => n * 256 + b.toNat) 0)

/-- `MesgHeadNtoh`, and the data behind the header -/
def Packet.ofData (data : List (BitVec 8)) : Packet where
  head := ⟨beUint data 8 16, beUint data 16 24, beUint data 24 28⟩
  seq := beUint data 28 36
  length := beUint data 4 8
  data := data.drop mesgHeadSize

inductive Kind where
  | blacklist
  | gag
  deriving DecidableEq

/-- A request to add to a list of the user or to remove from it, as it comes. -/
structure Request where
  env : Env
  kind : Kind
  add : Bool
  data : List (BitVec 8)

/-- Whether the list of a user has a target. -/
def Store.Lists (s : Store) : Kind → BitVec 64 → BitVec 64 → Prop
  | .blacklist, uid, target => (s.blacklist uid target).isSome
  | .gag, uid, target => target ∈ s.gag uid

namespace Request

def cmd (r : Request) : Cmd :=
  match r.kind, r.add with
  | .blacklist, true => .blacklistAdd
  | .blacklist, false => .blacklistDel
  | .gag, true => .gagAdd
  | .gag, false => .gagDel

/-- The handler is given at least a header. -/
def Sized (r : Request) : Prop := mesgHeadSize ≤ r.data.length

instance (r : Request) : Decidable r.Sized := inferInstanceAs (Decidable (_ ≤ _))

/-- `UsrSvrBlacklistAddHandler` and the others. `MesgHeadNtoh` of less than a header panics. -/
def handle (r : Request) (s : Store) : Out :=
  if r.Sized then Relations.handle r.cmd r.env (.ofData r.data) s else ⟨none, s, 0⟩

/-- What a request is for, if it is valid: its session is online for the user whose list it is. -/
def valid (r : Request) : Option MesgRelation :=
  let p := Packet.ofData r.data
  if r.Sized ∧ isValid p.head ∧ r.env.mongo then
    match r.env.unmarshal r.cmd p.data with
    | .error _ => none
    | .ok req => if r.env.im.boundUID p.head.sid = some req.suid then some req else none
  else none

/-- The lists with the last valid request for each user and target. -/
def follow (h : Store × (Kind × BitVec 64 × BitVec 64 → Option Bool)) (r : Request) :
    Store × (Kind × BitVec 64 × BitVec 64 → Option Bool) :=
  ((r.handle h.1).store, match r.valid with
    | none => h.2
    | some req => put h.2 (r.kind, req.suid, req.duid) fun _ => some r.add)

/-- No nil is dereferenced. -/
def Returns (r : Request) : Prop := ∀ s, r.Sized → (r.handle s).ret.isSome

/-- A target is on the list just where the last request for it was to add it. -/
def Obeys (h : Store × (Kind × BitVec 64 × BitVec 64 → Option Bool)) : Prop :=
  ∀ kind uid target add, h.2 (kind, uid, target) = some add → (h.1.Lists kind uid target ↔ add)

/-- What a valid request is for is the case already. -/
def Idle (s : Store) (r : Request) : Prop :=
  ∀ req, r.valid = some req → (s.Lists r.kind req.suid req.duid ↔ r.add)

end Request

/-! ## One request -/

variable {s : Store}

theorem usrSvrRelationHandler_eq (ackCmd : Nat) (cmd : Cmd) (handler : Env → MesgRelation → Store → Store) (env : Env)
    (p : Packet) (s : Store) : usrSvrRelationHandler ackCmd (relationParse cmd) handler env p s =
      ⟨if isValid p.head then none else some (-1), s, 0⟩ := by
  unfold usrSvrRelationHandler
  rw [relationParse_eq]
  cases isValid p.head with
  | false => rfl
  | true => rfl

namespace Request

variable {r : Request} {h : Store × (Kind × BitVec 64 × BitVec 64 → Option Bool)}

/-- A request with a good header panics; no request changes a list or is answered. -/
theorem handle_eq (r : Request) (s : Store) : r.handle s =
    ⟨if r.Sized ∧ isValid (Packet.ofData r.data).head = false then some (-1) else none, s, 0⟩ := by
  have hrelation : ∀ p, Relations.handle r.cmd r.env p s = ⟨if isValid p.head then none else some (-1), s, 0⟩ := by
    obtain ⟨env, kind, add, data⟩ := r
    intro p
    cases kind with
    | blacklist =>
      cases add with
      | false => exact usrSvrRelationHandler_eq ..
      | true => exact usrSvrRelationHandler_eq ..
    | gag =>
      cases add with
      | false => exact usrSvrRelationHandler_eq ..
      | true => exact usrSvrRelationHandler_eq ..
  unfold handle
  by_cases hsized : r.Sized
  · rw [if_pos hsized, hrelation]
    cases isValid (Packet.ofData r.data).head with
    | false => simp [hsized]
    | true => simp
  · rw [if_neg hsized, if_neg fun h => hsized h.1]

theorem returns_iff (r : Request) : r.Returns ↔ (r.Sized → isValid (Packet.ofData r.data).head = false) := by
  unfold Returns
  constructor
  · intro hret hsized
    have hsome := hret .empty hsized
    rw [handle_eq] at hsome
    by_contra hvalid
    rw [if_neg fun h => hvalid h.2] at hsome
    cases hsome
  · intro hvalid s hsized
    rw [handle_eq, if_pos ⟨hsized, hvalid hsized⟩]
    rfl

/-! ## Runs -/

theorem follow_store (h : Store × (Kind × BitVec 64 × BitVec 64 → Option Bool)) (r : Request) :
    (follow h r).1 = h.1 := by
  unfold follow
  rw [handle_eq]

theorem Idle.obeys (hr : r.Idle h.1) (hobeys : Obeys h) : Obeys (follow h r) := by
  intro kind uid target add hlast
  rw [follow_store]
  unfold follow at hlast
  cases hvalid : r.valid with
  | none =>
    rw [hvalid] at hlast
    exact hobeys kind uid target add hlast
  | some req =>
    rw [hvalid] at hlast
    dsimp only at hlast
    rw [put_apply] at hlast
    split at hlast
    · rename_i hkey
      cases hkey
      cases hlast
      exact hr req hvalid
    · exact hobeys kind uid target add hlast

theorem idle_of_obeys (hobeys : Obeys (follow h r)) : r.Idle h.1 := by
  intro req hvalid
  have hlists := hobeys r.kind req.suid req.duid r.add
  rw [follow_store] at hlists
  refine hlists ?_
  unfold follow
  rw [hvalid]
  exact put_self h.2 (r.kind, req.suid, req.duid) fun _ => some r.add

/-- A handler returns just where the header is no good. From any lists, these follow the valid
requests of a run just where each asks for what is the case. -/
theorem take_effect_iff (r : Request) (s : Store) (rs : List Request) :
    (r.Returns ↔ (r.Sized → isValid (Packet.ofData r.data).head = false)) ∧
      ((∀ before, before <+: rs → Obeys (before.foldl follow (s, fun _ => none))) ↔ ∀ r ∈ rs, r.Idle s) := by
  have halways : (∀ before, before <+: rs → Obeys (before.foldl follow (s, fun _ => none))) ↔
      Guarded follow (fun _ r => r.Idle s) (s, fun _ => none) rs := by
    refine always_iff_guarded (I := fun h => h.1 = s ∧ Obeys h) ?_ ?_ ?_ rs ⟨rfl, ?_⟩
    · exact fun _ h => h.2
    · rintro h r ⟨rfl, -⟩ hobeys
      exact idle_of_obeys hobeys
    · rintro h r ⟨rfl, hobeys⟩ hr
      exact ⟨follow_store h r, hr.obeys hobeys⟩
    · rintro kind uid target add ⟨⟩
  exact ⟨r.returns_iff, halways.trans (guarded_forall rs _)⟩

/-- The user 5 puts the user 7 on her blacklist. -/
theorem blacklisted_not_listed : ¬∀ (r : Request) (s : Store) (rs : List Request),
    r.Returns ∧ ∀ before, before <+: rs → Obeys (before.foldl follow (s, fun _ => none)) := by
  intro hall
  let events : List Session.Event := [.online ⟨8, 3, 2⟩ ⟨5, 8⟩ 0 true]
  let body : List (BitVec 8) := [8, 5, 16, 7]
  let env : Env := ⟨(events.foldl Session.Stores.next Session.Stores.init).im, 0, true,
    fun _ data => if data = body then .ok ⟨5, 7⟩ else .error "unexpected EOF"⟩
  let head : List (BitVec 8) := [0, 0, 2, 7, 0, 0, 0, 4] ++ [0, 0, 0, 0, 0, 0, 0, 8] ++ [0, 0, 0, 0, 0, 0, 0, 3] ++
    [0, 0, 0, 2] ++ [0, 0, 0, 0, 0, 0, 0, 1] ++ List.replicate 16 0
  let r : Request := ⟨env, .blacklist, true, head ++ body⟩
  have hidle : r.Idle Store.empty := idle_of_obeys ((hall r .empty [r]).2 [r] (List.prefix_refl _))
  have hvalid : r.valid = some ⟨5, 7⟩ := by decide
  have hlisted : (Store.empty.blacklist 5 7).isSome := (hidle ⟨5, 7⟩ hvalid).mpr rfl
  cases hlisted

end Request

end BeehiveIm.Relations

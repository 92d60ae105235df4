/-
The tokens of the login: how they are made (`exec/usrsvr/controllers/iplist.go`), hidden
(`lib/crypt/crypt.go`) and checked (`mesg.go` of `exec/usrsvr/controllers` and of
`exec/chatroom/controllers`). The hash is left open, and so is the text that a time makes for it. An
index outside a list is a panic.

Tokens read back. The numbers are printed without a sign and read with one, so that those from 2^63
on do not come back; a text of an odd number of bytes is a panic.

What is masked can be changed without the password by whoever knows what it says, and a token
says whom it was issued for.
-/
import BeehiveIm.Lib.Base64
import BeehiveIm.Lib.Mask
import BeehiveIm.Lib.Strconv
import Mathlib.Data.BitVec

namespace BeehiveIm.Token

open BeehiveIm.Lib

/-- The hash of a text: 16 bytes. -/
abbrev Md5 := List Byte → Fin 16 → Byte

/-! ## Hiding a text -/

def hexDigit (v : BitVec 4) : Byte := if v.toNat < 10 then BitVec.ofNat 8 (48 + v.toNat)
    else BitVec.ofNat 8 (87 + v.toNat)

/-- `%x` of a hash -/
def hexText (h : Fin 16 → Byte) : List Byte :=
  (List.finRange 16).flatMap fun i => [hexDigit ((h i).extractLsb' 4 4), hexDigit ((h i).extractLsb' 0 4)]

/-- The text of a hash over and over. -/
def stream (h : Fin 16 → Byte) (i : Nat) : Byte := (hexText h).getD (i % 32) 0

section

variable (md5 : Md5)

/-- `cipherEncode` -/
def cipherEncode (cipher sourceText : List Byte) : List Byte := mask (stream (md5 cipher)) sourceText

/-- `Encode`, at a time that reads `clock` -/
def encode (cipher clock sourceText : List Byte) : List Byte :=
  Base64.encode (cipherEncode md5 cipher (spread (stream (md5 clock)) sourceText))

/-- `Decode`: the bytes that it does not write are zero. -/
def decode (cipher sourceText : List Byte) : Option (List Byte) :=
  match Base64.decode sourceText with
  | none => some []
  | some buf =>
    let inputData := cipherEncode md5 cipher buf
    (unspread inputData).map fun out => out ++ List.replicate (inputData.length - out.length) 0

end

/-! ## Asking for a token -/

/-- `IpListParam` -/
structure IpListParam where
  typ : Int
  uid : BitVec 64
  sid : BitVec 64
  clientip : List Byte

/-- `iplist_param_parse`, of the texts that a request has for its parameters -/
def iplistParamParse (type uid sid clientip : List Byte) : Except String IpListParam :=
  let typ := strconvParseInt 10 64 type
  if typ = 0 then .error "Type is invalid!"
  else
    let uid := BitVec.ofInt 64 (strconvParseInt 10 64 uid)
    if uid = 0 then .error "Uid is invalid!"
    else
      let sid := BitVec.ofInt 64 (strconvParseInt 10 64 sid)
      if sid = 0 then .error "Sid is invalid!"
      else if clientip = [] then .error "Client ip is invalid!"
      else .ok ⟨typ, uid, sid, clientip⟩

def timeDay : BitVec 64 := 86400
def timeYear : BitVec 64 := 365 * timeDay

/-- `uid:%d:ttl:%d:sid:%d:end` -/
def tokenText (uid : BitVec 64) (ttl : Int) (sid : BitVec 64) : List Byte :=
  ascii "uid:".toList ++ decimal uid.toNat ++ ascii ":ttl:".toList ++ decimalInt ttl ++ ascii ":sid:".toList ++ decimal sid.toNat ++
    ascii ":end".toList

/-- When a token made at the time `now` runs out. -/
def ttlOf (now : BitVec 64) : Int := (now + timeYear).toInt

section

variable (md5 : Md5) (cipher : List Byte)

/-- `iplist_token`, at the time `now` that reads `clock` -/
def iplistToken (clock : List Byte) (now uid sid : BitVec 64) : List Byte :=
  encode md5 cipher clock (tokenText uid (ttlOf now) sid)

/-! ## Checking it -/

/-- `OnlineToken` -/
structure OnlineToken where
  uid : BitVec 64
  ttl : Int
  sid : BitVec 64

/-- `online_token_decode` and `decodeOnlineToken`, which are the same -/
def tokenDecode (token : List Byte) : Option (Option OnlineToken) :=
  (decode md5 cipher token).map fun origToken =>
    let words := origToken.splitOn 58#8
    if words.length ≠ 7 then none
    else some {
      uid := BitVec.ofInt 64 (strconvParseInt 10 64 (words.getD 1 []))
      ttl := strconvParseInt 10 64 (words.getD 3 [])
      sid := BitVec.ofInt 64 (strconvParseInt 10 64 (words.getD 5 [])) }

/-- What the checks read of a `MesgOnline`. -/
structure MesgOnline where
  token : List Byte
  uid : BitVec 64
  sid : BitVec 64

def checkToken (token : Option OnlineToken) (req : MesgOnline) (now : Int) : Except String Unit :=
  match token with
  | none => .error "Decode token failed!"
  | some token =>
    if token.ttl < now then .error "Token is timeout!"
    else if token.uid ≠ req.uid ∨ token.sid ≠ req.sid then .error "Token is invalid!!"
    else .ok ()

/-- `online_req_check` of the user server -/
def onlineReqCheck (req : MesgOnline) (now : Int) : Option (Except String Unit) :=
  (tokenDecode md5 cipher req.token).map fun token => checkToken token req now

/-- `checkOnlineReq` of the chat room server -/
def checkOnlineReq (req : MesgOnline) (now : Int) : Option (Except String Unit) :=
  (tokenDecode md5 cipher req.token).map fun token => checkToken token req now

end

variable {md5 : Md5} {cipher clock token : List Byte} {uid sid uid' sid' now : BitVec 64} {ttl now' : Int}

/-! ## Decoding -/

/-- A token is decoded to its text, the other half zeros; what was changed in its masked bytes
is changed in the text. -/
theorem decode_masked (key : Nat → Byte) (text : List Byte) :
    decode md5 cipher (Base64.encode (mask (onOdd key) (cipherEncode md5 cipher (spread (stream (md5 clock)) text)))) =
      some (mask key text ++ List.replicate text.length 0) := by
  have hinput : cipherEncode md5 cipher
    (mask (onOdd key) (cipherEncode md5 cipher (spread (stream (md5 clock)) text))) =
      mask (onOdd key) (spread (stream (md5 clock)) text) := by
    rw [cipherEncode, cipherEncode, mask_comm, mask_mask]
  have hfold := unspread_mask text key (stream (md5 clock))
  have hlen := length_of_unspread hfold
  rw [decode, Base64.decode_encode]
  have hrest : (mask (onOdd key) (spread (stream (md5 clock)) text)).length - (mask key text).length = text.length := by
    simp only [length_mask] at hlen ⊢
    omega
  simp only [hinput, hfold, Option.map_some, hrest]

theorem decode_encode (text : List Byte) :
    decode md5 cipher (encode md5 cipher clock text) = some (text ++ List.replicate text.length 0) := by
  have hzero : onOdd (fun _ => 0#8) = fun _ => 0#8 := by
    funext i
    exact ite_self _
  have : decode md5 cipher (Base64.encode
    (mask (onOdd fun _ => 0#8) (cipherEncode md5 cipher (spread (stream (md5 clock)) text)))) =
      some (mask (fun _ => 0#8) text ++ List.replicate text.length 0) := decode_masked _ text
  rwa [hzero, mask_zero, mask_zero] at this

/-- Decoding panics just at a text whose bytes are odd in number. -/
theorem decode_isSome_iff : (decode md5 cipher token).isSome ↔
    ∀ buf, Base64.decode token = some buf → buf.length % 2 = 0 := by
  unfold decode
  cases Base64.decode token with
  | none => simp
  | some buf => simp [unspread_isSome_iff, cipherEncode]

/-! ## Words -/

/-- The text of a token, its words apart. -/
def render (uid ttl sid tail : List Byte) : List Byte :=
  ascii ['u', 'i', 'd'] ++ 58#8 :: (uid ++ 58#8 :: (ascii ['t', 't', 'l'] ++ 58#8 :: (ttl ++ 58#8 ::
    (ascii ['s', 'i', 'd'] ++ 58#8 :: (sid ++ 58#8 :: tail)))))

theorem tokenText_eq : tokenText uid ttl sid = render (decimal uid.toNat) (decimalInt ttl) (decimal sid.toNat)
    (ascii ['e', 'n', 'd']) := by
  simp [tokenText, render, ascii]

theorem render_append (u t s tail rest : List Byte) : render u t s tail ++ rest = render u t s (tail ++ rest) := by
  simp [render]

theorem splitOn_render {u t s tail : List Byte} (hu : 58#8 ∉ u) (ht : 58#8 ∉ t) (hs : 58#8 ∉ s) (htail : 58#8 ∉ tail) :
    (render u t s tail).splitOn 58#8 =
    [ascii ['u', 'i', 'd'], u, ascii ['t', 't', 'l'], t, ascii ['s', 'i', 'd'], s, tail] := by
  have huid : 58#8 ∉ ascii ['u', 'i', 'd'] := by decide
  have httl : 58#8 ∉ ascii ['t', 't', 'l'] := by decide
  have hsid : 58#8 ∉ ascii ['s', 'i', 'd'] := by decide
  rw [render, List.splitOn_append_cons_self_of_not_mem huid, List.splitOn_append_cons_self_of_not_mem hu,
    List.splitOn_append_cons_self_of_not_mem httl, List.splitOn_append_cons_self_of_not_mem ht,
    List.splitOn_append_cons_self_of_not_mem hsid, List.splitOn_append_cons_self_of_not_mem hs,
    List.splitOn_eq_singleton htail]

/-- A token that decodes to seven words. -/
theorem tokenDecode_render {u t s tail : List Byte} (h : decode md5 cipher token = some (render u t s tail))
    (hu : 58#8 ∉ u) (ht : 58#8 ∉ t) (hs : 58#8 ∉ s) (htail : 58#8 ∉ tail) : tokenDecode md5 cipher token =
      some (some ⟨BitVec.ofInt 64 (strconvParseInt 10 64 u), strconvParseInt 10 64 t,
      BitVec.ofInt 64 (strconvParseInt 10 64 s)⟩) := by
  rw [tokenDecode, h, Option.map_some, splitOn_render hu ht hs htail]
  rfl

/-! ## Numbers -/

/-- What is read of a printed number: one that is too large reads as the largest. -/
def readBack (id : BitVec 64) : BitVec 64 := if id.toNat < 2 ^ 63 then id else 0x7fffffffffffffff#64

theorem parseInt_id (id : BitVec 64) : BitVec.ofInt 64 (strconvParseInt 10 64 (decimal id.toNat)) = readBack id := by
  rw [parseInt_decimal (by decide), readBack]
  split
  · rename_i h
    have hmin : min (id.toNat : Int) (2 ^ (64 - 1) - 1) = id.toNat := by omega
    rw [hmin, BitVec.ofInt_natCast, BitVec.ofNat_toNat, BitVec.setWidth_eq]
  · rename_i h
    have hmin : min (id.toNat : Int) (2 ^ (64 - 1) - 1) = 0x7fffffffffffffff := by omega
    rw [hmin]
    rfl

theorem readBack_eq_iff {id : BitVec 64} : readBack id = id ↔ id.toNat < 2 ^ 63 := by
  unfold readBack
  split
  · rename_i h
    exact iff_of_true rfl h
  · rename_i h
    refine iff_of_false ?_ h
    rintro rfl
    exact h (by decide)

theorem parseInt_ttl : strconvParseInt 10 64 (decimalInt (ttlOf now)) = ttlOf now := by
  refine parseInt_decimalInt (by decide) ?_ ?_
  · exact BitVec.le_toInt _
  · exact BitVec.toInt_lt

theorem checkToken_ok_iff (tk : OnlineToken) (req : MesgOnline) (h : now' ≤ tk.ttl) :
    checkToken (some tk) req now' = .ok () ↔ req.uid = tk.uid ∧ req.sid = tk.sid := by
  rw [checkToken, if_neg (not_lt.2 h)]
  split
  · rename_i hne
    refine iff_of_false nofun fun heq => ?_
    rcases hne with hne | hne
    · exact hne heq.1.symm
    · exact hne heq.2.symm
  · rename_i heq
    rw [not_or, not_not, not_not] at heq
    exact iff_of_true rfl ⟨heq.1.symm, heq.2.symm⟩

/-! ## A token made and checked -/

/-- The words of a token are its numbers, as they are read. -/
theorem tokenDecode_iplistToken :
    tokenDecode md5 cipher (iplistToken md5 cipher clock now uid sid) =
      some (some ⟨readBack uid, ttlOf now, readBack sid⟩) := by
  have hdigit : ∀ n, 58#8 ∉ decimal n := fun n => notMem_decimal (by decide)
  have htext : decode md5 cipher (encode md5 cipher clock (tokenText uid (ttlOf now) sid)) = _ := decode_encode _
  rw [tokenText_eq, render_append] at htext
  rw [iplistToken, tokenText_eq, tokenDecode_render htext (hdigit _) (notMem_decimalInt (by decide) (by decide) _)
    (hdigit _) ?_, parseInt_id, parseInt_ttl, parseInt_id]
  rw [List.mem_append, not_or]
  exact ⟨by decide, fun h => absurd (List.eq_of_mem_replicate h) (by decide)⟩

/-- A token for a user and a session is accepted by both services for these two, as long as it has
not run out, and for no others. -/
def RoundTrip (uid sid : BitVec 64) : Prop :=
  ∀ (md5 : Md5) (cipher clock : List Byte) (now : BitVec 64) (now' : Int) (uid' sid' : BitVec 64), now' ≤ ttlOf now →
    (onlineReqCheck md5 cipher ⟨iplistToken md5 cipher clock now uid sid, uid', sid'⟩ now' = some (.ok ()) ↔
    uid' = uid ∧ sid' = sid) ∧
    (checkOnlineReq md5 cipher ⟨iplistToken md5 cipher clock now uid sid, uid', sid'⟩ now' = some (.ok ()) ↔
    uid' = uid ∧ sid' = sid)

theorem accepted_iff (h : now' ≤ ttlOf now) :
    onlineReqCheck md5 cipher ⟨iplistToken md5 cipher clock now uid sid, uid', sid'⟩ now' = some (.ok ()) ↔
      uid' = readBack uid ∧ sid' = readBack sid := by
  rw [onlineReqCheck, tokenDecode_iplistToken, Option.map_some, Option.some_inj]
  generalize ttlOf now = ttl at h ⊢
  exact checkToken_ok_iff ⟨readBack uid, ttl, readBack sid⟩ ⟨_, uid', sid'⟩ h

theorem roundTrip_iff : RoundTrip uid sid ↔ uid.toNat < 2 ^ 63 ∧ sid.toNat < 2 ^ 63 := by
  rw [← readBack_eq_iff, ← readBack_eq_iff]
  constructor
  · intro h
    have hlate : 0 ≤ ttlOf 0 := by decide +kernel
    have hboth := (h (fun _ _ => 0) [] [] 0 0 uid sid hlate).1
    rw [accepted_iff hlate] at hboth
    obtain ⟨huid, hsid⟩ := hboth.2 ⟨rfl, rfl⟩
    exact ⟨huid.symm, hsid.symm⟩
  · rintro ⟨huid, hsid⟩ md5 cipher clock now now' uid' sid' hle
    have hacc : onlineReqCheck md5 cipher ⟨iplistToken md5 cipher clock now uid sid, uid', sid'⟩ now' = some (.ok ()) ↔
        uid' = readBack uid ∧ sid' = readBack sid := accepted_iff hle
    rw [huid, hsid] at hacc
    exact ⟨hacc, hacc⟩

/-- Which users and sessions have tokens that come back, and which texts are decoded without a
panic. -/
theorem token_round_trip_iff (uid sid : BitVec 64) (md5 : Md5) (cipher token : List Byte) :
    (RoundTrip uid sid ↔ uid.toNat < 2 ^ 63 ∧ sid.toNat < 2 ^ 63) ∧
    ((decode md5 cipher token).isSome ↔ ∀ buf, Base64.decode token = some buf → buf.length % 2 = 0) :=
  ⟨roundTrip_iff, decode_isSome_iff⟩

/-- Two requests to the code: for the user -1, whose number is the largest, and with the text of one
byte. -/
theorem token_lost : (∃ param, iplistParamParse (ascii ['1']) (ascii ['-', '1']) (ascii ['1'])
    (ascii ['a']) = .ok param ∧
      ¬RoundTrip param.uid param.sid) ∧
    ¬∀ (md5 : Md5) (cipher token : List Byte), (decode md5 cipher token).isSome := by
  constructor
  · refine ⟨⟨1, -1, 1, ascii ['a']⟩, rfl, fun h => ?_⟩
    exact absurd (roundTrip_iff.1 h).1 (by decide)
  · intro h
    have hbuf : Base64.decode (ascii ['A', 'A', '=', '=']) = some [0] := by decide
    exact absurd (decode_isSome_iff.1 (h (fun _ _ => 0) [] (ascii ['A', 'A', '=', '='])) [0] hbuf) (by decide)

/-- The numbers that a request can ask for: all but 0. -/
theorem iplistParamParse_range (uid sid : BitVec 64) : (∃ type uidText sidText clientip param,
    iplistParamParse type uidText sidText clientip = .ok param ∧ param.uid = uid ∧ param.sid = sid) ↔
    uid ≠ 0 ∧ sid ≠ 0 := by
  constructor
  · rintro ⟨type, uidText, sidText, clientip, param, hparam, rfl, rfl⟩
    unfold iplistParamParse at hparam
    simp only [] at hparam
    split at hparam
    · cases hparam
    · split at hparam
      · cases hparam
      · rename_i huid
        split at hparam
        · cases hparam
        · rename_i hsid
          split at hparam
          · cases hparam
          · cases hparam
            exact ⟨huid, hsid⟩
  · rintro ⟨huid, hsid⟩
    have hread : ∀ id : BitVec 64, BitVec.ofInt 64 (strconvParseInt 10 64 (decimalInt id.toInt)) = id := fun id => by
      rw [parseInt_decimalInt (by decide) (BitVec.le_toInt _) BitVec.toInt_lt, BitVec.ofInt_toInt]
    have htyp : strconvParseInt 10 64 (ascii ['1']) = 1 := by decide
    refine ⟨ascii ['1'], decimalInt uid.toInt, decimalInt sid.toInt, [0], ⟨1, uid, sid, [0]⟩, ?_, rfl, rfl⟩
    rw [iplistParamParse]
    simp only [htyp, hread]
    rw [if_neg (by decide), if_neg huid, if_neg hsid, if_neg (by decide)]

/-! ## Tokens rewritten -/

/-- The token with `new` at the start of its text in place of `old`. -/
def forge (old new token : List Byte) : List Byte :=
  match Base64.decode token with
  | none => token
  | some buf => Base64.encode (mask (onOdd (turn old new)) buf)

/-- A changed token decodes to the changed text, whatever the password. -/
theorem decode_forge {old new : List Byte} (hlen : old.length = new.length) (rest : List Byte) :
    decode md5 cipher (forge old new (encode md5 cipher clock (old ++ rest))) =
      some (new ++ rest ++ List.replicate (old ++ rest).length 0) := by
  rw [forge, encode, Base64.decode_encode]
  exact (decode_masked (turn old new) (old ++ rest)).trans (by rw [mask_turn hlen])

/-! ## Another user -/

/-- The user whom the token is changed to. -/
def otherUid (uid : BitVec 64) : BitVec 64 := if uid = 1 then 2 else 1

theorem otherUid_ne (uid : BitVec 64) : otherUid uid ≠ uid := by
  unfold otherUid
  split
  · rename_i h
    rw [h]
    decide
  · rename_i h
    exact fun h' => h h'.symm

/-- The other's number in as many digits, with zeros before it. -/
def otherText (uid : BitVec 64) : List Byte :=
  List.replicate ((decimal uid.toNat).length - 1) 48#8 ++ decimal (otherUid uid).toNat

theorem length_otherText (uid : BitVec 64) : (otherText uid).length = (decimal uid.toNat).length := by
  have hone : (decimal (otherUid uid).toNat).length = 1 := by
    unfold otherUid
    split <;> rfl
  have hpos := List.length_pos_iff.2 (decimal_ne_nil uid.toNat)
  rw [otherText, List.length_append, List.length_replicate, hone]
  omega

/-- Zeros before a number change nothing. -/
theorem parseInt_otherText (uid : BitVec 64) :
    BitVec.ofInt 64 (strconvParseInt 10 64 (otherText uid)) = otherUid uid := by
  rw [otherText, parseInt_zeros_decimal (by decide), ← parseInt_decimal (by decide), parseInt_id, readBack_eq_iff]
  unfold otherUid
  split <;> decide

theorem colon_notMem_otherText (uid : BitVec 64) : 58#8 ∉ otherText uid := by
  rw [otherText, List.mem_append, not_or]
  exact ⟨fun h => absurd (List.eq_of_mem_replicate h) (by decide), notMem_decimal (by decide)⟩

/-- The start of a token's text. -/
def opening (uid : List Byte) : List Byte := ascii ['u', 'i', 'd'] ++ 58#8 :: uid

theorem render_eq_opening (u t s tail : List Byte) :
    render u t s tail = opening u ++ 58#8 :: (ascii ['t', 't', 'l'] ++ 58#8 :: (t ++ 58#8 ::
    (ascii ['s', 'i', 'd'] ++ 58#8 :: (s ++ 58#8 :: tail)))) := by
  simp [render, opening]

/-- A token issued for `uid`, changed to one for the other user. -/
def rewriteUid (uid : BitVec 64) : List Byte → List Byte :=
  forge (opening (decimal uid.toNat)) (opening (otherText uid))

theorem tokenDecode_rewriteUid : tokenDecode md5 cipher (rewriteUid uid (iplistToken md5 cipher clock now uid sid)) =
    some (some ⟨otherUid uid, ttlOf now, readBack sid⟩) := by
  have hlen : (opening (decimal uid.toNat)).length = (opening (otherText uid)).length := by
    simp [opening, length_otherText]
  have hdigit : ∀ n, 58#8 ∉ decimal n := fun n => notMem_decimal (by decide)
  -- the text behind the user is not touched
  let rest : List Byte := 58#8 :: (ascii ['t', 't', 'l'] ++ 58#8 :: (decimalInt (ttlOf now) ++ 58#8 ::
    (ascii ['s', 'i', 'd'] ++ 58#8 :: (decimal sid.toNat ++ 58#8 :: ascii ['e', 'n', 'd']))))
  have htext : decode md5 cipher (rewriteUid uid (iplistToken md5 cipher clock now uid sid)) =
      some (opening (otherText uid) ++ rest ++ List.replicate (opening (decimal uid.toNat) ++ rest).length 0) := by
    rw [rewriteUid, iplistToken, tokenText_eq, render_eq_opening]
    exact decode_forge hlen rest
  rw [← render_eq_opening, render_append] at htext
  rw [tokenDecode_render htext (colon_notMem_otherText uid) (notMem_decimalInt (by decide) (by decide) _) (hdigit _) ?_,
    parseInt_otherText, parseInt_ttl, parseInt_id]
  rw [List.mem_append, not_or]
  exact ⟨by decide, fun h => absurd (List.eq_of_mem_replicate h) (by decide)⟩

theorem rewriteUid_accepted (h : now' ≤ ttlOf now) :
    onlineReqCheck md5 cipher ⟨rewriteUid uid (iplistToken md5 cipher clock now uid sid), otherUid uid,
    readBack sid⟩ now' = some (.ok ()) := by
  rw [onlineReqCheck, tokenDecode_rewriteUid, Option.map_some, Option.some_inj]
  generalize ttlOf now = ttl at h ⊢
  exact (checkToken_ok_iff ⟨otherUid uid, ttl, readBack sid⟩ ⟨_, otherUid uid, readBack sid⟩ h).2 ⟨rfl, rfl⟩

/-- No rewriting of the tokens issued for a user and a session, made without the password, has them
accepted for others whatever the password. -/
def Unforgeable (md5 : Md5) (uid sid : BitVec 64) : Prop :=
  ¬∃ (f : List Byte → List Byte) (uid' sid' : BitVec 64), ¬(uid' = uid ∧ sid' = sid) ∧
    ∀ (cipher clock : List Byte) (now : BitVec 64) (now' : Int), now' ≤ ttlOf now →
      onlineReqCheck md5 cipher ⟨f (iplistToken md5 cipher clock now uid sid), uid', sid'⟩ now' = some (.ok ())

/-- Every user's tokens can be rewritten. -/
theorem not_unforgeable (md5 : Md5) (uid sid : BitVec 64) : ¬Unforgeable md5 uid sid := by
  rw [Unforgeable, not_not]
  refine ⟨rewriteUid uid, otherUid uid, readBack sid, ?_, fun cipher clock now now' hle => rewriteUid_accepted hle⟩
  exact fun h => otherUid_ne uid h.1

/-- A token for the user 1, rewritten to one for the user 2. -/
theorem forged_one : ¬∀ (md5 : Md5) (uid sid : BitVec 64), Unforgeable md5 uid sid := by
  intro h
  refine h (fun _ _ => 0) 1 1 ⟨rewriteUid 1, 2, 1, by decide, fun cipher clock now now' hle => ?_⟩
  exact rewriteUid_accepted hle

end BeehiveIm.Token

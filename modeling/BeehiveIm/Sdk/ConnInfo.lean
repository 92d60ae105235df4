/-
The connection information that the client asks of the HTTP server (`sdk_ssvr_parse_conn_info`),
with the addresses in it (`str_to_ip_port`). The JSON library is a parameter: what it parses, and
what there is to read of a node. Memory does not run out.
-/
import BeehiveIm.Lib.CStr
import BeehiveIm.Lib.Strconv
import Mathlib.Data.List.GetD
import Mathlib.Data.List.Perm.Basic
import Mathlib.Data.List.TakeWhile

namespace BeehiveIm.Sdk

open BeehiveIm.Lib

/-- What is used of the JSON library: its parser, its look-ups, and the fields of a node. `child` is
the list that starts at `child` and goes on at `next`, `valuedouble` the number as `uint64_t`, and
`valuestring` is NULL where there is no string. -/
structure CJson (J : Type) where
  parse : CStr → Option J
  getObjectItem : J → String → Option J
  getArraySize : J → Int
  child : J → List J
  valueint : J → Int
  valuedouble : J → BitVec 64
  valuestring : J → Option CStr

/-- `IP_ADDR_MAX_LEN` -/
def ipAddrMaxLen : Nat := 32

/-- `SDK_TOKEN_MAX_LEN` -/
def sdkTokenMaxLen : Nat := 128

/-- `ip_port_t` -/
structure IpPort where
  ipaddr : List Byte
  port : BitVec 32
  deriving DecidableEq

/-- `sdk_conn_info_t` -/
structure ConnInfo where
  expire : Int
  token : List Byte
  iplist : List IpPort
  sid : BitVec 64

/-! ## `str_to_ip_port` -/

def blank : Byte := 32#8
def colon : Byte := 58#8
def isdigit (c : Byte) : Bool := 48#8 ≤ c ∧ c ≤ 57#8

/-- The loop over the address: `out` is written, and its length is `idx`. Past the field there is
nothing to write (`none`). The number that the loop makes of the digits is not used. -/
def copyHost (str : List Byte) : List Byte → List Byte → Option (List Byte × List Byte)
  | [], out => if out.length < ipAddrMaxLen then some (out, []) else none
  | c :: ch, out =>
    if out.length < ipAddrMaxLen then
      if c = colon then some (out, c :: ch) else copyHost str ch (out ++ [str.getD out.length 0])
    else none

/-- The loop over the port. -/
def scanPort : BitVec 32 → List Byte → BitVec 32
  | port, [] => port
  | port, c :: ch => if isdigit c then scanPort (port * 10 + BitVec.ofNat 32 (c.toNat - 48)) ch else port

/-- `str_to_ip_port`: a fault, a failure or an address. -/
def strToIpPort (str : List Byte) : Option (Option IpPort) :=
  match copyHost str (str.dropWhile (· = blank)) [] with
  | none => none
  | some (_, []) => some none
  | some (host, _ :: ch) => some (some ⟨host, scanPort 0 ch⟩)

/-! ## `sdk_ssvr_parse_conn_info` -/

/-- How a call ends: it returns, with `ctx->sid` and the information, or goes through NULL or past a
field. -/
inductive Ended where
  | returned (ret : Int) (sid : BitVec 64) (connInfo : ConnInfo)
  | fault

variable {J : Type} (lib : CJson J)

/-- The loop over the addresses, for `fuel` rounds; with none left it still goes on (`none`), and
a fault is `some none`. -/
def ipLoop : Nat → List J → List IpPort → Option (Option (List IpPort))
  | 0, _, _ => none
  | _ + 1, [], iplist => some (some iplist)
  | fuel + 1, ip :: ips, iplist =>
    match lib.valuestring ip with
    | none => some none
    | some str =>
      match strToIpPort str with
      | none => some none
      | some none => ipLoop fuel (ip :: ips) iplist -- `continue` is before `ip = ip->next`
      | some (some item) => ipLoop fuel ips (⟨item.ipaddr.take (ipAddrMaxLen - 1), item.port⟩ :: iplist)

/-- What follows the addresses. -/
def parseSid (info : J) (sid : BitVec 64) (connInfo : ConnInfo) : Ended :=
  match (lib.getObjectItem info "sid").filter fun item => lib.valueint item ≠ 0 with
  | none => .returned (-1) sid connInfo
  | some item => .returned 0 (lib.valuedouble item) { connInfo with sid := lib.valuedouble item }

/-- What the loop has led to. -/
def afterLoop (info : J) (sid : BitVec 64) (connInfo : ConnInfo) : Option (List IpPort) → Ended
  | none => .fault
  | some iplist => parseSid lib info sid { connInfo with iplist := iplist }

/-- From the token on. -/
def parseToken (fuel : Nat) (info : J) (sid : BitVec 64) (connInfo : ConnInfo) : Option Ended :=
  match lib.getObjectItem info "token" with
  | none => some (.returned (-1) sid connInfo)
  | some token =>
    match lib.valuestring token with
    | none => some .fault
    | some text =>
      if text.val.length = 0 then some (.returned (-1) sid connInfo)
      else
        let connInfo := { connInfo with token := (snprintf sdkTokenMaxLen text).val }
        match (lib.getObjectItem info "list").filter fun iplist => lib.getArraySize iplist ≠ 0 with
        | none => some (.returned (-1) sid connInfo)
        | some iplist =>
          (ipLoop lib fuel (lib.child iplist) connInfo.iplist).map (afterLoop lib info sid connInfo)

/-- `sdk_ssvr_parse_conn_info` at the time `ctm`. -/
def sdkSsvrParseConnInfo (fuel : Nat) (ctm : Int) (sid : BitVec 64) (connInfo : ConnInfo) (str : CStr) : Option Ended :=
  match lib.parse str with
  | none => some (.returned (-1) sid connInfo)
  | some info =>
    match (lib.getObjectItem info "code").filter fun code => lib.valueint code = 0 with
    | none => some (.returned (-1) sid connInfo)
    | some _ =>
      match (lib.getObjectItem info "expire").filter fun expire => lib.valueint expire ≠ 0 with
      | none => some (.returned (-1) sid connInfo)
      | some expire => parseToken lib fuel info sid { connInfo with expire := ctm + lib.valueint expire }

/-- The information as `sdk_ssvr_update_conn_info` leaves it before it asks for the new one. -/
def ConnInfo.reset : ConnInfo := ⟨0, [], [], 0⟩

/-! ## What an address is -/

/-- A number read from digits. -/
def number (digits : List Byte) : Nat := digits.foldl (fun n c => n * 10 + (c.toNat - 48)) 0

variable (isIp : List Byte → Prop) [DecidablePred isIp]

/-- The host of a text, between its leading blanks and the colon, and what follows. -/
def hostOf (str : List Byte) : List Byte := (str.dropWhile (· = blank)).takeWhile (· ≠ colon)
def behindHost (str : List Byte) : List Byte := (str.dropWhile (· = blank)).dropWhile (· ≠ colon)

/-- A text `ip:port` behind blanks: the ip is not empty, and such as `isIp` takes for one; the port
is a decimal below 65536. -/
def address (str : List Byte) : Option IpPort :=
  match behindHost str with
  | [] => none
  | _ :: digits =>
    if hostOf str ≠ [] ∧ isIp (hostOf str) ∧ digits ≠ [] ∧ digits.all isdigit ∧ number digits < 65536
    then some ⟨hostOf str, BitVec.ofNat 32 (number digits)⟩ else none

/-- The address of an entry. -/
def CJson.address (ip : J) : Option IpPort := (lib.valuestring ip).bind fun str => Sdk.address isIp str

/-- The entries of the list of a reply -/
def CJson.entries (str : CStr) : List J := ((lib.parse str).bind (lib.getObjectItem · "list")).elim [] lib.child

/-- The call returns, and if it tells of success, the list is that of the addresses of the reply. -/
def ParsesRight (ctm : Int) (sid : BitVec 64) (str : CStr) : Prop :=
  ∃ fuel ret sid' connInfo', sdkSsvrParseConnInfo lib fuel ctm sid .reset str = some (.returned ret sid' connInfo') ∧
    (ret = 0 → connInfo'.iplist.Perm ((lib.entries str).filterMap (lib.address isIp)))

/-- The scanner finds the colon, before the field is full. -/
def Scans (str : List Byte) : Prop :=
  colon ∈ str ∧ (hostOf str).length < ipAddrMaxLen

/-- The reply gets the parser to its token. -/
def CJson.ToToken (str : CStr) (info token : J) : Prop :=
  lib.parse str = some info ∧ (∃ code, lib.getObjectItem info "code" = some code ∧ lib.valueint code = 0) ∧
    (∃ expire, lib.getObjectItem info "expire" = some expire ∧ lib.valueint expire ≠ 0) ∧
    lib.getObjectItem info "token" = some token

/-- From there it gets on to the list. -/
def CJson.ToList (info token iplist : J) : Prop :=
  (∃ text, lib.valuestring token = some text ∧ text.val ≠ []) ∧ lib.getObjectItem info "list" = some iplist ∧
    lib.getArraySize iplist ≠ 0

/-- Every entry is a string, with a colon that the scanner finds; and if the reply has a session,
every entry is an address without leading blanks. -/
def CJson.ListFits (info list : J) : Prop :=
  (∀ ip ∈ lib.child list, ∃ text, lib.valuestring ip = some text ∧ Scans text) ∧
    ((∃ item, lib.getObjectItem info "sid" = some item ∧ lib.valueint item ≠ 0) →
      ∀ ip ∈ lib.child list, ∃ text, lib.valuestring ip = some text ∧ (Sdk.address isIp text).isSome ∧
        text.val.head? ≠ some blank)

/-- Where the parser comes to the token, this is a string; where it comes to the list, the list
fits. -/
def CJson.Fits (str : CStr) : Prop :=
  ∀ info token, lib.ToToken str info token →
    lib.valuestring token ≠ none ∧ ∀ list, lib.ToList info token list → lib.ListFits isIp info list

variable {lib} {isIp}

/-! ## The scanner -/

theorem copyHost_spec (str : List Byte) : ∀ (ch : List Byte) (idx : Nat), idx + ch.length ≤ str.length →
    copyHost str ch (str.take idx) = if idx + (ch.takeWhile (· ≠ colon)).length < ipAddrMaxLen
      then some (str.take (idx + (ch.takeWhile (· ≠ colon)).length), ch.dropWhile (· ≠ colon)) else none
  | [], idx, hidx => by
    have hlen : (str.take idx).length = idx := List.length_take_of_le (by simpa using hidx)
    simp [copyHost, hlen]
  | c :: ch, idx, hidx => by
    rw [List.length_cons] at hidx
    have hlen : (str.take idx).length = idx := List.length_take_of_le (by omega)
    have hnext : str.take idx ++ [str.getD idx 0] = str.take (idx + 1) := by
      rw [List.getD_eq_getElem _ _ (by omega), List.take_append_getElem]
    unfold copyHost
    rw [hlen, hnext]
    by_cases hc : c = colon
    · simp [hc]
    · rw [if_neg hc, copyHost_spec str ch (idx + 1) (by omega)]
      simp only [ne_eq, hc, not_false_eq_true, decide_true, List.takeWhile_cons_of_pos, List.dropWhile_cons_of_pos,
        List.length_cons]
      rw [show idx + 1 + (ch.takeWhile (· ≠ colon)).length = idx + ((ch.takeWhile (· ≠ colon)).length + 1) by omega]
      split
      · rfl
      · rename_i hidx'
        rw [if_neg (by omega)]

/-- A number that is too great for the port wraps round. -/
theorem scanPort_eq : ∀ (digits : List Byte) (n : Nat), digits.all isdigit →
    scanPort (BitVec.ofNat 32 n) digits =
      BitVec.ofNat 32 (digits.foldl (fun n c => n * 10 + (c.toNat - 48)) n)
  | [], _, _ => rfl
  | c :: digits, n, h => by
    rw [List.all_cons, Bool.and_eq_true] at h
    rw [scanPort, if_pos h.1, List.foldl_cons, ← scanPort_eq digits _ h.2, BitVec.ofNat_add, BitVec.ofNat_mul]
    rfl

theorem mem_colon_iff {str : List Byte} : colon ∈ str ↔ behindHost str ≠ [] := by
  have hblank : colon ∈ str ↔ colon ∈ str.dropWhile (· = blank) := by
    induction str with
    | nil => rfl
    | cons c str ih =>
      by_cases hc : c = blank
      · subst hc
        simpa [List.dropWhile_cons, show colon ≠ blank by decide] using ih
      · simp [hc]
  rw [hblank, behindHost]
  simp [List.dropWhile_eq_nil_iff]

/-- What the scanner makes of a text. -/
theorem strToIpPort_eq (str : List Byte) : strToIpPort str =
    if (hostOf str).length < ipAddrMaxLen then
      some ((behindHost str).head?.map fun _ => ⟨str.take (hostOf str).length, scanPort 0 (behindHost str).tail⟩)
    else none := by
  have hlen : 0 + (str.dropWhile (· = blank)).length ≤ str.length := by
    rw [Nat.zero_add]
    exact (List.dropWhile_sublist _).length_le
  have hcopy : copyHost str (str.dropWhile (· = blank)) [] = if (hostOf str).length < ipAddrMaxLen
      then some (str.take (hostOf str).length, behindHost str) else none := by
    have := copyHost_spec str (str.dropWhile (· = blank)) 0 hlen
    rwa [List.take_zero, Nat.zero_add] at this
  unfold strToIpPort
  rw [hcopy]
  split_ifs
  · cases behindHost str with
    | nil => rfl
    | cons c ch => rfl
  · rfl

variable {str : List Byte} {ip : J} {ips : List J} {item : IpPort} {items iplist : List IpPort}

theorem exists_strToIpPort : (∃ item, strToIpPort str = some (some item)) ↔ Scans str := by
  rw [strToIpPort_eq, Scans, mem_colon_iff]
  cases behindHost str with
  | nil => simp
  | cons c ch => simp

/-- What the scanner copies fits into the field of an entry. -/
theorem length_strToIpPort (h : strToIpPort str = some (some item)) : item.ipaddr.length < ipAddrMaxLen := by
  rw [strToIpPort_eq] at h
  split at h
  · rename_i hlen
    rw [Option.some.injEq, Option.map_eq_some_iff] at h
    obtain ⟨-, -, rfl⟩ := h
    exact lt_of_le_of_lt (List.length_take_le _ _) hlen
  · cases h

theorem address_eq_some : address isIp str = some item ↔ ∃ c digits, behindHost str = c :: digits ∧
    (hostOf str ≠ [] ∧ isIp (hostOf str) ∧ digits ≠ [] ∧ digits.all isdigit ∧ number digits < 65536) ∧
      item = ⟨hostOf str, BitVec.ofNat 32 (number digits)⟩ := by
  unfold address
  cases behindHost str with
  | nil => simp
  | cons c digits =>
    simp only [Option.ite_none_right_eq_some, Option.some.injEq, List.cons.injEq]
    constructor
    · rintro ⟨hip, hitem⟩
      exact ⟨c, digits, ⟨rfl, rfl⟩, hip, hitem.symm⟩
    · rintro ⟨_, _, ⟨rfl, rfl⟩, hip, hitem⟩
      exact ⟨hip, hitem.symm⟩

theorem head_hostOf : (hostOf str).head? ≠ some blank := by
  rw [hostOf, List.head?_takeWhile]
  intro h
  rw [Option.filter_eq_some_iff] at h
  have := List.head?_dropWhile_not (fun c => decide (c = blank)) str
  rw [h.1] at this
  simp at this

/-- An address without leading blanks, which the scanner does not run over, is
scanned as what it is. -/
theorem strToIpPort_of_address (hip : address isIp str = some item) (hscans : Scans str)
    (hhead : str.head? ≠ some blank) : strToIpPort str = some (some item) := by
  obtain ⟨c, digits, hbehind, ⟨-, -, -, hdigits, -⟩, rfl⟩ := address_eq_some.mp hip
  have hdrop : str.dropWhile (· = blank) = str := by
    cases str with
    | nil => rfl
    | cons c str => simpa using hhead
  have htake : str.take (hostOf str).length = hostOf str := by
    rw [hostOf, hdrop]
    exact (List.prefix_iff_eq_take.mp (List.takeWhile_prefix _)).symm
  rw [strToIpPort_eq, if_pos hscans.2, hbehind, htake, List.head?_cons, Option.map_some, List.tail_cons]
  rw [show scanPort 0 digits = BitVec.ofNat 32 (number digits) from scanPort_eq digits 0 hdigits]

/-- A leading blank is copied, and no address begins with one. -/
theorem head_of_strToIpPort (hscan : strToIpPort str = some (some item)) (hhost : hostOf str ≠ []) :
    item.ipaddr.head? = str.head? := by
  have hscans := exists_strToIpPort.mp ⟨item, hscan⟩
  rw [strToIpPort_eq, if_pos hscans.2, Option.some.injEq, Option.map_eq_some_iff] at hscan
  obtain ⟨-, -, rfl⟩ := hscan
  rw [List.head?_take, if_neg (mt List.length_eq_zero_iff.mp hhost)]

/-! ## The loop -/

/-- `item` is what the loop makes of the entry. -/
def CJson.Item (lib : CJson J) (ip : J) (item : IpPort) : Prop :=
  ∃ str, lib.valuestring ip = some str ∧ strToIpPort str = some (some item)

theorem take_item (h : strToIpPort str = some (some item)) :
    (⟨item.ipaddr.take (ipAddrMaxLen - 1), item.port⟩ : IpPort) = item := by
  have := length_strToIpPort h
  rw [List.take_of_length_le (by omega)]

/-- If the loop ends well, each entry has been scanned. -/
theorem ipLoop_ends : ∀ (fuel : Nat) (ips : List J) {l : List IpPort}, ipLoop lib fuel ips l = some (some iplist) →
    ∃ items, List.Forall₂ lib.Item ips items ∧ iplist = items.reverse ++ l
  | fuel + 1, [], l, h => by
    cases h
    exact ⟨[], .nil, rfl⟩
  | fuel + 1, ip :: ips, l, h => by
    unfold ipLoop at h
    split at h
    · cases h
    · rename_i str hstr
      split at h
      · cases h
      · -- the entry is tried again, and so it has been scanned
        exact ipLoop_ends fuel (ip :: ips) h
      · rename_i item hitem
        obtain ⟨items, hitems, rfl⟩ := ipLoop_ends fuel ips h
        rw [take_item hitem]
        exact ⟨item :: items, .cons ⟨str, hstr, hitem⟩ hitems, by simp⟩

theorem ipLoop_items : ∀ {ips : List J} {items : List IpPort} {l : List IpPort}, List.Forall₂ lib.Item ips items →
    ipLoop lib (ips.length + 1) ips l = some (some (items.reverse ++ l))
  | _, _, _, .nil => rfl
  | ip :: ips, item :: items, l, .cons ⟨str, hstr, hitem⟩ hitems => by
    unfold ipLoop
    rw [hstr]
    dsimp only
    rw [hitem]
    dsimp only
    rw [take_item hitem, List.length_cons, ipLoop_items hitems]
    simp

theorem exists_items : (∃ items, List.Forall₂ lib.Item ips items) ↔
    ∀ ip ∈ ips, ∃ text, lib.valuestring ip = some text ∧ Scans text := by
  have hitem (ip : J) : (∃ item, lib.Item ip item) ↔ ∃ text, lib.valuestring ip = some text ∧ Scans text := by
    constructor
    · rintro ⟨item, text, htext, hscan⟩
      exact ⟨text, htext, exists_strToIpPort.mp ⟨item, hscan⟩⟩
    · rintro ⟨text, htext, hscans⟩
      obtain ⟨item, hscan⟩ := exists_strToIpPort.mpr hscans
      exact ⟨item, text, htext, hscan⟩
  induction ips with
  | nil => exact ⟨fun _ => by simp, fun _ => ⟨[], .nil⟩⟩
  | cons ip ips ih =>
    rw [List.forall_mem_cons]
    refine Iff.trans ?_ (and_congr (hitem ip) ih)
    constructor
    · rintro ⟨_, _ | ⟨h, hs⟩⟩
      exact ⟨⟨_, h⟩, _, hs⟩
    · rintro ⟨⟨item, h⟩, items, hs⟩
      exact ⟨item :: items, .cons h hs⟩

theorem exists_item (hitems : List.Forall₂ lib.Item ips items) (hmem : ip ∈ ips) :
    ∃ item ∈ items, lib.Item ip item := by
  induction hitems with
  | nil => cases hmem
  | @cons ip' item ips items hitem _ ih =>
    rcases List.mem_cons.mp hmem with rfl | hmem
    · exact ⟨item, List.mem_cons_self, hitem⟩
    · obtain ⟨item', hmem', hitem'⟩ := ih hmem
      exact ⟨item', List.mem_cons_of_mem _ hmem', hitem'⟩

/-- The list is right just where every entry is an address without leading blanks. -/
theorem perm_iff (hitems : List.Forall₂ lib.Item ips items) :
    (items.reverse ++ []).Perm (ips.filterMap (lib.address isIp)) ↔
      ∀ ip ∈ ips, ∃ text, lib.valuestring ip = some text ∧ (Sdk.address isIp text).isSome ∧
        text.val.head? ≠ some blank := by
  rw [List.append_nil, List.Perm.congr_left (List.reverse_perm _)]
  constructor
  · intro hperm ip hmem
    -- none of the entries is left out, as there are as many addresses
    have hlen : (ips.filterMap (lib.address isIp)).length = ips.length :=
      hperm.length_eq.symm.trans hitems.length_eq.symm
    rw [List.length_filterMap_eq_countP, List.countP_eq_length] at hlen
    obtain ⟨item', hitem'⟩ := Option.isSome_iff_exists.mp (hlen ip hmem)
    obtain ⟨text, htext, hip⟩ := Option.bind_eq_some_iff.mp hitem'
    obtain ⟨item, hlist, text', htext', hscan⟩ := exists_item hitems hmem
    obtain rfl : text' = text := Option.some.inj (htext'.symm.trans htext)
    obtain ⟨_, _, _, hhost, -⟩ := address_eq_some.mp hip
    refine ⟨text', htext, Option.isSome_of_eq_some hip, ?_⟩
    obtain ⟨ip₁, -, hitem₁⟩ := List.mem_filterMap.mp (hperm.mem_iff.mp hlist)
    obtain ⟨text₁, -, hip₁⟩ := Option.bind_eq_some_iff.mp hitem₁
    obtain ⟨_, _, _, _, hitem⟩ := address_eq_some.mp hip₁
    rw [← head_of_strToIpPort hscan hhost.1, hitem]
    exact head_hostOf
  · intro h
    have heq : ips.filterMap (lib.address isIp) = items := by
      induction hitems with
      | nil => rfl
      | @cons ip item ips items hitem hitems ih =>
        obtain ⟨text, htext, hscan⟩ := hitem
        obtain ⟨text', htext', hip, hhead⟩ := h ip List.mem_cons_self
        obtain rfl : text' = text := Option.some.inj (htext'.symm.trans htext)
        obtain ⟨item', hitem'⟩ := Option.isSome_iff_exists.mp hip
        have hscan' := strToIpPort_of_address hitem' (exists_strToIpPort.mp ⟨item, hscan⟩) hhead
        obtain rfl : item' = item := by simpa using hscan'.symm.trans hscan
        rw [List.filterMap_cons_some (b := item') (by rw [CJson.address, htext, Option.bind_some, hitem']),
          ih fun ip hip => h ip (List.mem_cons_of_mem _ hip)]
    rw [heq]

/-! ## The reply -/

variable {ctm : Int} {sid : BitVec 64} {str : CStr} {info : J} {connInfo : ConnInfo}

theorem parseSid_of_some (sid : BitVec 64) (connInfo : ConnInfo)
    (h : ∃ item, lib.getObjectItem info "sid" = some item ∧ lib.valueint item ≠ 0) :
    ∃ sid', parseSid lib info sid connInfo = .returned 0 sid' { connInfo with sid := sid' } := by
  obtain ⟨item, hitem, hint⟩ := h
  exact ⟨lib.valuedouble item, by simp [parseSid, hitem, Option.filter_some, hint]⟩

theorem parseSid_of_none (h : ¬∃ item, lib.getObjectItem info "sid" = some item ∧ lib.valueint item ≠ 0) :
    parseSid lib info sid connInfo = .returned (-1) sid connInfo := by
  have hnone : ((lib.getObjectItem info "sid").filter fun item => lib.valueint item ≠ 0) = none := by
    rw [Option.filter_eq_none_iff]
    exact fun item hitem hint => h ⟨item, hitem, by simpa using hint⟩
  rw [parseSid, hnone]

/-- From the token on, the call fails before the list, faults, or goes through the list. -/
theorem token_cases (lib : CJson J) (info : J) (sid : BitVec 64) (connInfo : ConnInfo) :
    ((∀ token, lib.getObjectItem info "token" = some token →
        lib.valuestring token ≠ none ∧ ∀ list, ¬lib.ToList info token list) ∧
      ∃ connInfo', parseToken lib 0 info sid connInfo = some (.returned (-1) sid connInfo')) ∨
    ∃ token, lib.getObjectItem info "token" = some token ∧
      (lib.valuestring token = none ∧ (∀ fuel, parseToken lib fuel info sid connInfo = some .fault) ∨
        ∃ list connInfo', lib.ToList info token list ∧ ∀ fuel, parseToken lib fuel info sid connInfo =
          (ipLoop lib fuel (lib.child list) connInfo.iplist).map (afterLoop lib info sid connInfo')) := by
  unfold parseToken
  cases htoken : lib.getObjectItem info "token" with
  | none =>
    refine .inl ⟨?_, _, rfl⟩
    rintro token ⟨⟩
  | some token =>
    dsimp only
    cases htext : lib.valuestring token with
    | none => exact .inr ⟨token, rfl, .inl ⟨htext, fun _ => rfl⟩⟩
    | some text =>
      dsimp only
      by_cases hempty : text.val.length = 0
      · refine .inl ⟨?_, _, if_pos hempty⟩
        rintro _ ⟨⟩
        refine ⟨by simp [htext], ?_⟩
        rintro list ⟨⟨text', htext', hne⟩, -⟩
        obtain rfl : text' = text := Option.some.inj (htext'.symm.trans htext)
        exact hne (List.length_eq_zero_iff.mp hempty)
      · simp only [hempty, if_false]
        cases hlist : (lib.getObjectItem info "list").filter fun iplist => lib.getArraySize iplist ≠ 0 with
        | none =>
          refine .inl ⟨?_, _, rfl⟩
          rintro _ ⟨⟩
          refine ⟨by simp [htext], ?_⟩
          rintro list ⟨-, hget, hsize⟩
          simp [hget, hsize] at hlist
        | some list =>
          obtain ⟨hget, hsize⟩ := Option.filter_eq_some_iff.mp hlist
          have hne : text.val ≠ [] := fun h => hempty (by rw [h]; rfl)
          exact .inr ⟨token, rfl, .inr ⟨list, _, ⟨⟨text, htext, hne⟩, hget, by simpa using hsize⟩, fun _ => rfl⟩⟩

/-- The call fails before the token, or comes to it with nothing listed. -/
theorem parse_cases (lib : CJson J) (ctm : Int) (sid : BitVec 64) (str : CStr) :
    ((∀ info token, ¬lib.ToToken str info token) ∧
      ∃ connInfo, sdkSsvrParseConnInfo lib 0 ctm sid .reset str = some (.returned (-1) sid connInfo)) ∨
    ∃ info connInfo, (∀ info' token, lib.ToToken str info' token ↔
        info' = info ∧ lib.getObjectItem info "token" = some token) ∧ connInfo.iplist = [] ∧
      ∀ fuel, sdkSsvrParseConnInfo lib fuel ctm sid .reset str = parseToken lib fuel info sid connInfo := by
  unfold sdkSsvrParseConnInfo
  cases hparse : lib.parse str with
  | none =>
    refine .inl ⟨?_, _, rfl⟩
    rintro info token ⟨hinfo, -⟩
    cases hparse.symm.trans hinfo
  | some info =>
    dsimp only
    cases hcode : (lib.getObjectItem info "code").filter fun code => lib.valueint code = 0 with
    | none =>
      refine .inl ⟨?_, _, rfl⟩
      rintro info' token ⟨hinfo, ⟨code, hget, hint⟩, -⟩
      obtain rfl : info = info' := Option.some.inj (hparse.symm.trans hinfo)
      simp [hget, hint] at hcode
    | some code =>
      dsimp only
      cases hexpire : (lib.getObjectItem info "expire").filter fun expire => lib.valueint expire ≠ 0 with
      | none =>
        refine .inl ⟨?_, _, rfl⟩
        rintro info' token ⟨hinfo, -, ⟨expire, hget, hint⟩, -⟩
        obtain rfl : info = info' := Option.some.inj (hparse.symm.trans hinfo)
        simp [hget, hint] at hexpire
      | some expire =>
        obtain ⟨hcode, hint⟩ := Option.filter_eq_some_iff.mp hcode
        obtain ⟨hexpire, hint'⟩ := Option.filter_eq_some_iff.mp hexpire
        refine .inr ⟨info, _, fun info' token => ?_, rfl, fun _ => rfl⟩
        constructor
        · rintro ⟨hinfo, -, -, htoken⟩
          obtain rfl : info = info' := Option.some.inj (hparse.symm.trans hinfo)
          exact ⟨rfl, htoken⟩
        · rintro ⟨rfl, htoken⟩
          exact ⟨hparse, ⟨code, hcode, by simpa using hint⟩, ⟨expire, hexpire, by simpa using hint'⟩, htoken⟩

/-- The end of a call that goes through the list. -/
theorem list_iff (sid : BitVec 64) (connInfo : ConnInfo) (list : J) : (∃ fuel ret sid' connInfo',
      (ipLoop lib fuel (lib.child list) []).map (afterLoop lib info sid connInfo) =
        some (.returned ret sid' connInfo') ∧
      (ret = 0 → connInfo'.iplist.Perm ((lib.child list).filterMap (lib.address isIp)))) ↔
    lib.ListFits isIp info list := by
  constructor
  · rintro ⟨fuel, ret, sid', connInfo', hret, hright⟩
    obtain ⟨ended, hloop, hret⟩ := Option.map_eq_some_iff.mp hret
    cases ended with
    | none => cases hret
    | some iplist =>
      obtain ⟨items, hitems, rfl⟩ := ipLoop_ends fuel _ hloop
      refine ⟨exists_items.mp ⟨items, hitems⟩, fun hsid => ?_⟩
      obtain ⟨sid₁, hsome⟩ :=
        parseSid_of_some sid { connInfo with iplist := items.reverse ++ [] } hsid
      cases hsome.symm.trans hret
      exact (perm_iff hitems).mp (hright rfl)
  · rintro ⟨hscans, hright⟩
    obtain ⟨items, hitems⟩ := exists_items.mpr hscans
    have hloop := congrArg (Option.map (afterLoop lib info sid connInfo)) (ipLoop_items (l := []) hitems)
    by_cases hsid : ∃ item, lib.getObjectItem info "sid" = some item ∧ lib.valueint item ≠ 0
    · obtain ⟨sid', hsome⟩ :=
        parseSid_of_some sid { connInfo with iplist := items.reverse ++ [] } hsid
      exact ⟨_, 0, sid', _, hloop.trans (congrArg some hsome), fun _ => (perm_iff hitems).mpr (hright hsid)⟩
    · exact ⟨_, -1, _, _, hloop.trans (congrArg some (parseSid_of_none hsid)), fun h => absurd h (by decide)⟩

/-- Whatever the time and the session were, a reply is parsed right just where it fits. -/
theorem parses_right_iff (ctm : Int) (sid : BitVec 64) (str : CStr) :
    ParsesRight lib isIp ctm sid str ↔ lib.Fits isIp str := by
  unfold ParsesRight
  rcases parse_cases lib ctm sid str with ⟨hleaves, connInfo, hrun⟩ | ⟨info, connInfo, hto, hempty, hparse⟩
  · constructor
    · exact fun _ info token htoken => absurd htoken (hleaves info token)
    · exact fun _ => ⟨0, -1, _, _, hrun, fun h => absurd h (by decide)⟩
  simp only [hparse]
  rcases token_cases lib info sid connInfo with ⟨hleaves, connInfo', hrun⟩ | ⟨token, htoken, ⟨hnone, hrun⟩ |
    ⟨list, connInfo', hlist, hrun⟩⟩
  · constructor
    · intro _ info' token htoken
      obtain ⟨rfl, htoken⟩ := (hto info' token).mp htoken
      exact ⟨(hleaves token htoken).1, fun list hlist => absurd hlist ((hleaves token htoken).2 list)⟩
    · exact fun _ => ⟨0, -1, _, _, hrun, fun h => absurd h (by decide)⟩
  · constructor
    · rintro ⟨fuel, ret, sid', connInfo', hret, -⟩
      cases (hrun fuel).symm.trans hret
    · exact fun h => absurd hnone (h info token ((hto info token).mpr ⟨rfl, htoken⟩)).1
  · have hreach := (hto info token).mpr ⟨rfl, htoken⟩
    have hentries : lib.entries str = lib.child list := by
      rw [CJson.entries, hreach.1, Option.bind_some, hlist.2.1]
      rfl
    have hfits : lib.Fits isIp str ↔ lib.ListFits isIp info list := by
      constructor
      · exact fun h => (h info token hreach).2 list hlist
      · intro h info' token' htoken'
        obtain ⟨rfl, hget⟩ := (hto info' token').mp htoken'
        obtain rfl : token = token' := Option.some.inj (htoken.symm.trans hget)
        obtain ⟨⟨text, htext, -⟩, hget, -⟩ := hlist
        refine ⟨by simp [htext], ?_⟩
        rintro list' ⟨-, hget', -⟩
        obtain rfl : list = list' := Option.some.inj (hget.symm.trans hget')
        exact h
    rw [hfits, hentries, ← list_iff sid connInfo' list]
    simp only [hrun, hempty]

/-- A tree of the JSON library: the name of a node, and what is read of it. -/
inductive Json where
  | node (string : String) (valuestring : Option CStr) (valueint : Int) (child : List Json)

/-- The library, where it parses a text as `reply`. -/
def Json.cjson (reply : Json) : CJson Json where
  parse _ := some reply
  getObjectItem
    | .node _ _ _ child, name => child.find? fun | .node string _ _ _ => string = name
  getArraySize | .node _ _ _ child => child.length
  child | .node _ _ _ child => child
  valueint | .node _ _ valueint _ => valueint
  valuedouble | .node _ _ valueint _ => BitVec.ofInt 64 valueint
  valuestring | .node _ valuestring _ _ => valuestring

/-- A reply with a list of one entry, which is the text `7`. -/
def reply7 : Json :=
  .node "" none 0
    [.node "code" none 0 [], .node "expire" none 9 [], .node "token" (some ⟨[116], by decide⟩) 0 [],
      .node "list" none 0 [.node "" (some ⟨[55], by decide⟩) 0 []], .node "sid" none 1 []]

/-- The entry of that reply is tried again and again. -/
theorem reply7_hangs : ¬ParsesRight reply7.cjson (fun _ => True) 100 0
    ⟨ascii "\x7b\"code\":0,\"expire\":9,\"token\":\"t\",\"list\":[\"7\"],\"sid\":1\x7d".toList, by decide⟩ := by
  rintro ⟨fuel, ret, sid', connInfo', hret, -⟩
  obtain ⟨ended, hloop, hret⟩ := Option.map_eq_some_iff.mp
    (show (ipLoop reply7.cjson fuel [.node "" (some ⟨[55], by decide⟩) 0 []] []).map (afterLoop _ _ _ _) = _ from hret)
  cases ended with
  | none => cases hret
  | some iplist =>
    obtain ⟨items, hitems, -⟩ := ipLoop_ends fuel _ hloop
    obtain _ | ⟨⟨text, htext, hscan⟩, -⟩ := hitems
    cases htext
    cases hscan

end BeehiveIm.Sdk

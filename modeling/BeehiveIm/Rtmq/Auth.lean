/-
The users of an RTMQ server (`rtmq_auth_add`, `rtmq_auth_check`), and the LINK-AUTH request of a Go
proxy before them. The fields of the request have no NUL at their end where the user or the password
fills them. Memory does not run out.
-/
import BeehiveIm.Core.AvlTree.Run
import BeehiveIm.Lib.CStr
import BeehiveIm.Rtmq.Proxy.Early

namespace BeehiveIm.Rtmq

open BeehiveIm.Lib BeehiveIm.Core

/-- `rtmq_auth_t` -/
structure RtmqAuth where
  usr : CStr
  passwd : CStr

/-- `rtmq_auth_cmp_cb` -/
def rtmqAuthCmpCb (auth₁ auth₂ : RtmqAuth) : Int := strcmp auth₁.usr auth₂.usr

/-- What `rtmq_auth_add` keeps of a user. -/
def RtmqAuth.kept (usr passwd : CStr) : RtmqAuth := ⟨snprintf RTMQ_USR_MAX_LEN usr, snprintf RTMQ_PWD_MAX_LEN passwd⟩

/-- `rtmq_auth_add`, and whether it succeeds. The password of the key is not looked at. -/
def rtmqAuthAdd (auths : AvlTree RtmqAuth) (usr passwd : CStr) : Option (AvlTree RtmqAuth × Bool) :=
  let key := RtmqAuth.kept usr passwd
  match auths.avlQuery (rtmqAuthCmpCb key) with
  | none => none
  | some (some auth) => some (auths, strcmp auth.passwd passwd = 0)
  | some none => (auths.avlInsert (rtmqAuthCmpCb key) key true).map fun (auths, ret) => (auths, ret = .ok)

/-- `rtmq_auth_trav_add`; without an answer the server does not start. -/
def rtmqAuthTravAdd (auths : AvlTree RtmqAuth) (auth : RtmqAuth) : Option (AvlTree RtmqAuth) :=
  match rtmqAuthAdd auths auth.usr auth.passwd with
  | some (auths, true) => some auths
  | _ => none

/-- `rtmq_auth_init` -/
def rtmqAuthInit (conf : List RtmqAuth) : Option (AvlTree RtmqAuth) :=
  conf.foldlM rtmqAuthTravAdd (AvlTree.avlCreat RtmqAuth)

/-- `rtmq_auth_check` for a request at `mem`: the field of the user, that of the password,
and what is behind them. -/
def rtmqAuthCheck (auths : AvlTree RtmqAuth) (mem : List Byte) : Bool :=
  let passwd := cString (mem.drop RTMQ_USR_MAX_LEN)
  match auths.avlQuery (rtmqAuthCmpCb ⟨snprintf RTMQ_USR_MAX_LEN (cString mem), passwd⟩) with
  | some (some auth) => strcmp auth.passwd passwd = 0
  | _ => false

/-- The server takes the LINK-AUTH request of the proxy, with `rest` behind it in its buffer, and
the link is authenticated. -/
def Accepts (auths : AvlTree RtmqAuth) (rest : List Byte) (answers : List Bool) (conf : ProxyConf) : Prop :=
  ∃ f, conf.authReq.frame = some f ∧
    (f.sys rsvrHandlers ⟨false, 0, fun usrPasswd => rtmqAuthCheck auths (usrPasswd ++ rest), answers⟩).1.authSucc = true

/-- The proxy has the user and the password of one that is configured on the server. -/
def Configured (conf : List RtmqAuth) (pxy : ProxyConf) : Prop :=
  ∃ auth ∈ conf, auth.usr.val = pxy.usr ∧ auth.passwd.val = pxy.passwd

/-- A configured proxy has a group, and its password does not fill the field; any other differs from
all those configured in what the server keeps of them. -/
def Distinct (conf : List RtmqAuth) (pxy : ProxyConf) : Prop :=
  (Configured conf pxy → pxy.gid ≠ 0 ∧ pxy.passwd.length < RTMQ_PWD_MAX_LEN) ∧
    (¬Configured conf pxy → pxy.gid ≠ 0 → ∀ auth ∈ conf,
      snprintf RTMQ_USR_MAX_LEN auth.usr = snprintf RTMQ_USR_MAX_LEN (cString pxy.usr) →
      snprintf RTMQ_PWD_MAX_LEN auth.passwd ≠ cString pxy.passwd)

/-! ## The table -/

theorem cmpOn_rtmqAuthCmpCb : CmpOn rtmqAuthCmpCb Set.univ :=
  cmpOn_strcmp.comap (f := RtmqAuth.usr) fun _ _ => Set.mem_univ _

theorem rtmqAuthCmpCb_eq_zero {a b : RtmqAuth} : rtmqAuthCmpCb a b = 0 ↔ a.usr = b.usr := by
  rw [rtmqAuthCmpCb, strcmp_eq_zero]

/-- The table has what is kept of the users added, under their names, and nothing else. -/
structure Holds (conf : List RtmqAuth) (m : RtmqAuth → Option RtmqAuth) : Prop where
  added : ∀ auth ∈ conf, ∀ k, k.usr = snprintf RTMQ_USR_MAX_LEN auth.usr → m k = some (.kept auth.usr auth.passwd)
  only : ∀ k auth, m k = some auth → k.usr = auth.usr ∧ ∃ auth' ∈ conf, auth = .kept auth'.usr auth'.passwd

variable {conf : List RtmqAuth} {m : RtmqAuth → Option RtmqAuth} {auths auths' : AvlTree RtmqAuth} {auth : RtmqAuth}
  {pxy : ProxyConf}

theorem Holds.add (h : Holds conf m) (hm : AvlTree.Refines rtmqAuthCmpCb auths m)
    (hadd : rtmqAuthTravAdd auths auth = some auths') :
    ∃ m', AvlTree.Refines rtmqAuthCmpCb auths' m' ∧ Holds (conf ++ [auth]) m' := by
  unfold rtmqAuthTravAdd rtmqAuthAdd at hadd
  dsimp only at hadd
  rw [hm.query cmpOn_rtmqAuthCmpCb] at hadd
  cases hkey : m (.kept auth.usr auth.passwd) with
  | some old =>
    -- the name is there, and with the same password
    obtain ⟨husr, auth', hmem, rfl⟩ := h.only _ _ hkey
    simp only [hkey] at hadd
    by_cases hpwd : strcmp (RtmqAuth.kept auth'.usr auth'.passwd).passwd auth.passwd = 0
    · simp only [hpwd, decide_true, Option.some.injEq] at hadd
      subst hadd
      have hpwd : snprintf RTMQ_PWD_MAX_LEN auth'.passwd = auth.passwd :=
        strcmp_eq_zero.mp hpwd
      have hsame : RtmqAuth.kept auth'.usr auth'.passwd = .kept auth.usr auth.passwd := by
        rw [RtmqAuth.kept, RtmqAuth.kept, ← hpwd, snprintf_snprintf]
        exact congrArg (RtmqAuth.mk · _) husr.symm
      refine ⟨m, hm, ?_, ?_⟩
      · intro a ha k hk
        rcases List.mem_append.mp ha with ha | ha
        · exact h.added a ha k hk
        · obtain rfl := List.mem_singleton.mp ha
          rw [← hsame]
          exact h.added auth' hmem k (hk.trans husr)
      · intro k a hk
        obtain ⟨husr, auth', hmem, rfl⟩ := h.only k a hk
        exact ⟨husr, auth', List.mem_append_left _ hmem, rfl⟩
    · simp [hpwd] at hadd
  | none =>
    obtain ⟨T, hT, hrefines⟩ := hm.insert cmpOn_rtmqAuthCmpCb hkey
    simp only [hkey, hT, Option.map_some, decide_true, Option.some.injEq] at hadd
    subst hadd
    refine ⟨_, hrefines, ?_, ?_⟩
    · intro a ha k hk
      simp only [mapStep, hkey, true_and, rtmqAuthCmpCb_eq_zero]
      rcases List.mem_append.mp ha with ha | ha
      · rw [if_neg]
        · exact h.added a ha k hk
        · -- the name would have been there
          intro hname
          rw [h.added a ha _ (hname.symm.trans hk)] at hkey
          cases hkey
      · obtain rfl := List.mem_singleton.mp ha
        exact if_pos hk
    · intro k a hk
      simp only [mapStep, hkey, true_and, rtmqAuthCmpCb_eq_zero] at hk
      split at hk
      · rename_i hname
        cases hk
        exact ⟨hname, auth, List.mem_append_right _ List.mem_cons_self, rfl⟩
      · obtain ⟨husr, auth', hmem, rfl⟩ := h.only k a hk
        exact ⟨husr, auth', List.mem_append_left _ hmem, rfl⟩

/-- The table of a server that has started. -/
theorem init_holds (h : rtmqAuthInit conf = some auths) :
    ∃ m, AvlTree.Refines rtmqAuthCmpCb auths m ∧ Holds conf m := by
  have hloop : ∀ (rest : List RtmqAuth) (conf : List RtmqAuth) (T : AvlTree RtmqAuth) (m : RtmqAuth → Option RtmqAuth),
      AvlTree.Refines rtmqAuthCmpCb T m → Holds conf m → rest.foldlM rtmqAuthTravAdd T = some auths →
      ∃ m, AvlTree.Refines rtmqAuthCmpCb auths m ∧ Holds (conf ++ rest) m := by
    intro rest
    induction rest with
    | nil =>
      intro conf T m hT hm hrun
      cases hrun
      exact ⟨m, hT, by rwa [List.append_nil]⟩
    | cons auth rest ih =>
      intro conf T m hT hm hrun
      rw [List.foldlM_cons, Option.bind_eq_bind, Option.bind_eq_some_iff] at hrun
      obtain ⟨T', hadd, hrun⟩ := hrun
      obtain ⟨m', hT', hm'⟩ := hm.add hT hadd
      simpa using ih (conf ++ [auth]) T' m' hT' hm' hrun
  have hempty : AvlTree.Refines rtmqAuthCmpCb (AvlTree.avlCreat RtmqAuth) fun _ => none :=
    ⟨.nil, AvlTree.avlCreat_wf, stores_nil rtmqAuthCmpCb⟩
  exact hloop conf [] _ _ hempty ⟨fun _ h => (by cases h), fun _ _ h => (by cases h)⟩ h

/-- The check finds a user whose name and password are the same in what the server keeps. -/
theorem check_iff (h : rtmqAuthInit conf = some auths) (mem : List Byte) : rtmqAuthCheck auths mem = true ↔
    ∃ auth ∈ conf, snprintf RTMQ_USR_MAX_LEN auth.usr = snprintf RTMQ_USR_MAX_LEN (cString mem) ∧
      snprintf RTMQ_PWD_MAX_LEN auth.passwd = cString (mem.drop RTMQ_USR_MAX_LEN) := by
  obtain ⟨m, hT, hm⟩ := init_holds h
  unfold rtmqAuthCheck
  dsimp only
  rw [hT.query cmpOn_rtmqAuthCmpCb]
  cases hkey : m ⟨snprintf RTMQ_USR_MAX_LEN (cString mem), cString (mem.drop RTMQ_USR_MAX_LEN)⟩ with
  | none =>
    constructor
    · intro h
      cases h
    · rintro ⟨auth, hmem, husr, -⟩
      rw [hm.added auth hmem _ husr.symm] at hkey
      cases hkey
  | some found =>
    obtain ⟨husr, auth, hmem, rfl⟩ := hm.only _ _ hkey
    simp only [decide_eq_true_eq]
    rw [strcmp_eq_zero]
    constructor
    · exact fun hpwd => ⟨auth, hmem, husr.symm, hpwd⟩
    · rintro ⟨auth', hmem', husr', hpwd'⟩
      rw [hm.added auth' hmem' _ husr'.symm] at hkey
      rw [← Option.some.inj hkey]
      exact hpwd'

/-! ## The request -/

/-- As far as a field goes, the string in it is the one that was copied there. -/
theorem take_cString_copyInto {n k : Nat} (hk : k ≤ n) (src rest : List Byte) :
    (cString (copyInto n src ++ rest)).val.take k = (cString src).val.take k := by
  have htake : (copyInto n src ++ rest).take k = src.take k ++ List.replicate (k - src.length) 0 := by
    rw [List.take_append_of_le_length (by simpa using hk), copyInto, List.take_take, Nat.min_eq_left hk,
      List.take_append, List.take_replicate]
    rw [Nat.min_eq_left (by omega)]
  unfold cString
  dsimp only
  rw [List.take_takeWhile, List.take_takeWhile, htake, List.takeWhile_append]
  split
  · rename_i hall
    have hnil : (List.replicate (k - src.length) (0 : Byte)).takeWhile (· ≠ 0#8) = [] := by
      rw [List.takeWhile_replicate]
      rfl
    rw [hnil, List.append_nil]
    exact (List.IsPrefix.eq_of_length (List.takeWhile_prefix _) hall).symm
  · rfl

theorem snprintf_copyInto (n : Nat) (src rest : List Byte) :
    snprintf n (cString (copyInto n src ++ rest)) = snprintf n (cString src) :=
  Subtype.ext (take_cString_copyInto (Nat.sub_le n 1) src rest)

/-- A string that does not fill the field is in it just where it was copied there. -/
theorem cString_copyInto {n : Nat} {t : CStr} (ht : t.val.length < n) (src rest : List Byte) :
    t = cString (copyInto n src ++ rest) ↔ t = cString src := by
  have htake : ∀ s : CStr, t = s ↔ t.val = s.val.take n := by
    intro s
    rw [Subtype.ext_iff]
    constructor
    · intro h
      rw [← h, List.take_of_length_le (le_of_lt ht)]
    · intro h
      have hlen := congrArg List.length h
      rw [List.length_take] at hlen
      rw [h, List.take_of_length_le (by omega)]
  rw [htake, htake, take_cString_copyInto le_rfl]

theorem check_usrPasswd (h : rtmqAuthInit conf = some auths) (rest : List Byte) :
    rtmqAuthCheck auths (pxy.usrPasswd ++ rest) = true ↔
      ∃ auth ∈ conf, snprintf RTMQ_USR_MAX_LEN auth.usr = snprintf RTMQ_USR_MAX_LEN (cString pxy.usr) ∧
        snprintf RTMQ_PWD_MAX_LEN auth.passwd = cString pxy.passwd := by
  rw [check_iff h]
  refine exists_congr fun auth => and_congr_right fun _ => ?_
  rw [ProxyConf.usrPasswd, List.append_assoc, snprintf_copyInto, List.drop_left' (length_copyInto _ _),
    cString_copyInto (length_snprintf_lt (by decide) _)]

/-- The server accepts a proxy with a group, if there is a user with the same in what the server
keeps. -/
theorem accepts_iff (h : rtmqAuthInit conf = some auths) (rest : List Byte) (answers : List Bool) :
    Accepts auths rest answers pxy ↔ pxy.gid ≠ 0 ∧
      ∃ auth ∈ conf, snprintf RTMQ_USR_MAX_LEN auth.usr = snprintf RTMQ_USR_MAX_LEN (cString pxy.usr) ∧
        snprintf RTMQ_PWD_MAX_LEN auth.passwd = cString pxy.passwd := by
  rw [← check_usrPasswd h rest, Accepts]
  have hsize : HEADER_LEN + pxy.authReq.body.length ≤ RTMQ_BUFF_SIZE := by
    rw [length_authReq]
    decide
  obtain ⟨f, hf⟩ : ∃ f, pxy.authReq.frame = some f := ⟨_, dif_pos hsize⟩
  simp only [hf, Option.some.injEq, exists_eq_left', sys_authReq hf]
  by_cases hgid : pxy.gid = 0
  · rw [if_pos hgid]
    simp [hgid]
  · rw [if_neg hgid, authSucc_linkAuth]
    exact ⟨fun h => ⟨hgid, h⟩, And.right⟩

theorem accepts_configured (h : rtmqAuthInit conf = some auths) (rest : List Byte) (answers : List Bool)
    (hconf : Configured conf pxy) :
    Accepts auths rest answers pxy ↔ pxy.gid ≠ 0 ∧ pxy.passwd.length < RTMQ_PWD_MAX_LEN := by
  obtain ⟨auth, hmem, husr, hpwd⟩ := hconf
  rw [accepts_iff h, ← husr, ← hpwd, cString_val, cString_val]
  refine and_congr_right fun _ => ?_
  constructor
  · rintro ⟨auth', -, -, hkept⟩
    rw [← hkept]
    exact length_snprintf_lt (by decide) _
  · exact fun hlen => ⟨auth, hmem, rfl, snprintf_of_lt hlen⟩

/-- The server accepts just the proxies that are configured on it, where those keep
apart from the others. -/
theorem interoperates_iff (h : rtmqAuthInit conf = some auths) (rest : List Byte) (answers : List Bool) :
    (Accepts auths rest answers pxy ↔ Configured conf pxy) ↔ Distinct conf pxy := by
  by_cases hconf : Configured conf pxy
  · simp only [Distinct, hconf, iff_true, not_true, true_imp_iff, false_imp_iff, and_true]
    exact accepts_configured h rest answers hconf
  · simp only [Distinct, hconf, iff_false, not_false_eq_true, true_imp_iff, false_imp_iff, true_and]
    rw [accepts_iff h]
    constructor
    · exact fun hno hgid auth hmem husr hpwd => hno ⟨hgid, auth, hmem, husr, hpwd⟩
    · rintro hno ⟨hgid, auth, hmem, husr, hpwd⟩
      exact hno hgid auth hmem husr hpwd

/-- A user whose password has sixteen bytes, and the proxy that is configured so. -/
def auth16 : RtmqAuth := ⟨⟨[117], by decide⟩, ⟨List.replicate 16 112, by decide⟩⟩
def pxy16 : ProxyConf := ⟨1, 1, [117], List.replicate 16 112⟩

theorem started16 : ∃ auths, rtmqAuthInit [auth16] = some auths := Option.isSome_iff_exists.mp rfl

theorem interoperates_iff_one : ∃ auths, rtmqAuthInit [auth16] = some auths ∧
    ((Accepts auths [] [] pxy16 ↔ Configured [auth16] pxy16) ↔ Distinct [auth16] pxy16) := by
  obtain ⟨auths, h⟩ := started16
  exact ⟨auths, h, interoperates_iff h [] []⟩

/-- The password fills its field, and the server, which keeps fifteen bytes of it, does not accept
it. -/
theorem passwd16_rejected : ¬∀ (conf : List RtmqAuth) (auths : AvlTree RtmqAuth) (pxy : ProxyConf),
    rtmqAuthInit conf = some auths → (Accepts auths [] [] pxy ↔ Configured conf pxy) := by
  intro h
  obtain ⟨auths, hauths⟩ := started16
  have hconf : Configured [auth16] pxy16 := ⟨auth16, List.mem_cons_self, rfl, rfl⟩
  have haccepts := (h [auth16] auths pxy16 hauths).mpr hconf
  exact absurd ((accepts_configured hauths [] [] hconf).mp haccepts).2 (by decide)

end BeehiveIm.Rtmq

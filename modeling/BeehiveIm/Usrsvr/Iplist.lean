/-
The listeners that a client is sent to (`exec/usrsvr/controllers/iplist.go`): the dictionary of
listeners by network type, nation and operator, as it is fetched (`listend_dict_fetch` in
`task.go`), and the choice of one of them. The random numbers and the order in which a map is walked
are arguments; an index outside a list, or a random number below zero, is a panic.
-/
import BeehiveIm.IpDict
import Mathlib.Data.List.AList

namespace BeehiveIm.Usrsvr

open BeehiveIm.Lib
open BeehiveIm.IpDict (IpDictItem query)

/-- The listeners of a nation, by operator. -/
abbrev Operators := AList fun _ : BitVec 32 => List (List Byte)

/-- `UsrSvrLsndDictItem`: the operators by nation. -/
abbrev LsndDictItem := AList fun _ : List Byte => Operators

/-! ## Fetching -/

/-- What Redis answers for one network type; `none` is an error. -/
structure Answers where
  nations : Option (List (List Byte))
  operators : List Byte → Option (List (List Byte))
  iplist : List Byte → BitVec 32 → Option (List (List Byte))

/-- `operator_set[opid] = append(operator_set[opid], ip)` -/
def addListener (opid : BitVec 32) (set : Operators) (ip : List Byte) : Operators :=
  set.insert opid ((set.lookup opid).getD [] ++ [ip])

def fetchOperator (ans : Answers) (nation : List Byte) (set : Operators) (operator : List Byte) : Option Operators :=
  let opid := BitVec.ofInt 32 (strconvParseInt 10 32 operator)
  (ans.iplist nation opid).map fun iplist => iplist.foldl (addListener opid) set

def fetchNation (ans : Answers) (lsnd : LsndDictItem) (nation : List Byte) : Option LsndDictItem := do
  let operators ← ans.operators nation
  let set ← operators.foldlM (fetchOperator ans nation) ∅
  return lsnd.insert nation set

/-- `listend_dict_fetch` -/
def listendDictFetch (ans : Answers) : Option LsndDictItem := do
  let nations ← ans.nations
  nations.foldlM (fetchNation ans) ∅

/-! ## Choosing -/

/-- `rand.Intn`, for the random number `r`. -/
def intn (r n : Nat) : Nat := r % n

def nationCN : List Byte := ascii ['C', 'N']

/-- The walk over the operators in some order; `n` is not counted. -/
def walk (idx n : BitVec 32) : List (BitVec 32) → BitVec 32 → BitVec 32
  | [], typ => typ
  | k :: order, typ => if n = idx then k else walk idx n order typ

/-- One entry of a list, as a list of its own; `none` is a nil list. -/
def oneOf (r : Nat) : Option (List (List Byte)) → Option (List (List Byte))
  | none => none
  | some list => if list.length = 0 then none else some [list.getD (intn r list.length) []]

/-- `get_default` -/
def getDefault (listend : LsndDictItem) (order : List (BitVec 32)) (r r' : Nat) : Option (List (List Byte)) :=
  match listend.lookup nationCN with
  | none => none
  | some operators =>
    if operators.keys.length = 0 then none
    else
      let idx := intn r operators.keys.length % operators.keys.length
      let typ := walk (BitVec.ofNat 32 idx) 0 order 0
      oneOf r' (operators.lookup typ)

/-- `iplist_get`, without its panics; the outer `none` is one. -/
def iplistGet (types : AList fun _ : Int => LsndDictItem) (ipdict : List IpDictItem) (typ : Int) (clientip : List Byte)
    (order : List (BitVec 32)) (r r' : Nat) : Option (Option (List (List Byte))) :=
  match types.lookup typ with
  | none => some none
  | some listend =>
    if typ = 0 then some none
    else
      match query ipdict clientip with
      | none => none
      | some none => some (getDefault listend order r r')
      | some (some item) =>
        match listend.lookup item.nation with
        | none => some (getDefault listend order r r')
        | some operators =>
          match operators.lookup item.opid with
          | none => some (getDefault listend order r r')
          | some list => if list.length = 0 then none else some (some [list.getD (intn r list.length) []])

/-! ## What is fetched -/

variable {ans : Answers} {set set' : Operators} {lsnd lsnd' : LsndDictItem} {nation : List Byte}

/-- No operator has an empty list. -/
def Filled (set : Operators) : Prop := ∀ opid list, set.lookup opid = some list → list ≠ []

theorem filled_empty : Filled ∅ := fun _ _ h => nomatch h

theorem Filled.addListener (h : Filled set) (opid : BitVec 32) (ip : List Byte) : Filled (addListener opid set ip) := by
  intro op list hlist
  rw [Usrsvr.addListener] at hlist
  by_cases hop : op = opid
  · subst hop
    rw [AList.lookup_insert] at hlist
    obtain rfl := Option.some.inj hlist
    simp
  · rw [AList.lookup_insert_ne hop] at hlist
    exact h op list hlist

theorem Filled.foldl (opid : BitVec 32) : ∀ (iplist : List (List Byte)) {set : Operators}, Filled set →
    Filled (iplist.foldl (Usrsvr.addListener opid) set)
  | [], _, h => h
  | ip :: iplist, _, h => Filled.foldl opid iplist (h.addListener opid ip)

theorem Filled.fetchOperator (h : Filled set) {operator : List Byte}
    (hfetch : fetchOperator ans nation set operator = some set') : Filled set' := by
  obtain ⟨iplist, -, rfl⟩ := Option.map_eq_some_iff.1 hfetch
  exact h.foldl _ _

theorem Filled.foldlM (nation : List Byte) : ∀ (operators : List (List Byte)) {set set' : Operators}, Filled set →
    operators.foldlM (Usrsvr.fetchOperator ans nation) set = some set' → Filled set'
  | [], _, _, h, hfetch => by
    cases hfetch
    exact h
  | operator :: operators, set, set', h, hfetch => by
    rw [List.foldlM_cons] at hfetch
    obtain ⟨set₁, h₁, hfetch⟩ := Option.bind_eq_some_iff.1 hfetch
    exact Filled.foldlM nation operators (h.fetchOperator h₁) hfetch

theorem filled_fetchNation (h : ∀ nation set, lsnd.lookup nation = some set → Filled set)
    (hfetch : fetchNation ans lsnd nation = some lsnd') :
    ∀ nation set, lsnd'.lookup nation = some set → Filled set := by
  obtain ⟨operators, -, hfetch⟩ := Option.bind_eq_some_iff.1 hfetch
  obtain ⟨set, hset, hfetch⟩ := Option.bind_eq_some_iff.1 hfetch
  cases hfetch
  intro nation' set' hlookup
  by_cases hn : nation' = nation
  · subst hn
    rw [AList.lookup_insert] at hlookup
    obtain rfl := Option.some.inj hlookup
    exact filled_empty.foldlM nation' operators hset
  · rw [AList.lookup_insert_ne hn] at hlookup
    exact h nation' set' hlookup

theorem filled_foldlM : ∀ (nations : List (List Byte)) {lsnd lsnd' : LsndDictItem},
    (∀ nation set, lsnd.lookup nation = some set → Filled set) →
    nations.foldlM (fetchNation ans) lsnd = some lsnd' → ∀ nation set, lsnd'.lookup nation = some set → Filled set
  | [], _, _, h, hfetch => by
    cases hfetch
    exact h
  | nation :: nations, lsnd, lsnd', h, hfetch => by
    rw [List.foldlM_cons] at hfetch
    obtain ⟨lsnd₁, h₁, hfetch⟩ := Option.bind_eq_some_iff.1 hfetch
    exact filled_foldlM nations (filled_fetchNation h h₁) hfetch

/-- No operator that is fetched has an empty list. -/
theorem filled_listendDictFetch (h : listendDictFetch ans = some lsnd) :
    ∀ nation set, lsnd.lookup nation = some set → Filled set := by
  obtain ⟨nations, -, hfetch⟩ := Option.bind_eq_some_iff.1 h
  exact filled_foldlM nations (fun _ _ hl => by cases hl) hfetch

/-! ## What is chosen -/

variable {types : AList fun _ : Int => LsndDictItem} {ipdict : List IpDictItem} {typ : Int} {clientip : List Byte}
    {listend : LsndDictItem}
  {operators : Operators} {order : List (BitVec 32)} {r r' : Nat} {list : List (List Byte)} {addr : List Byte}

/-- The address is one of a listener of the network type. -/
def Listens (listend : LsndDictItem) (addr : List Byte) : Prop :=
  ∃ nation operators opid list, listend.lookup nation = some operators ∧ operators.lookup opid = some list ∧ addr ∈ list

/-- A list is returned, and what is in it listens. -/
def Offers (listend : LsndDictItem) (result : Option (Option (List (List Byte)))) : Prop :=
  ∃ addr, result = some (some [addr]) ∧ Listens listend addr

/-- The listeners of the client's own nation and operator, as far as they are known. -/
def own (listend : LsndDictItem) (item : Option IpDictItem) : Option (List (List Byte)) :=
  item.bind fun item => (listend.lookup item.nation).bind fun operators => operators.lookup item.opid

theorem getD_intn_mem (h : list ≠ []) : list.getD (intn r list.length) [] ∈ list := by
  have hlt : intn r list.length < list.length := Nat.mod_lt _ (List.length_pos_iff.2 h)
  rw [List.getD_eq_getElem?_getD, List.getElem?_eq_getElem hlt]
  exact List.getElem_mem hlt

/-- Only the first operator walked is ever taken, and that with the index 0. -/
theorem walk_eq (idx : BitVec 32) : ∀ order :
    List (BitVec 32), walk idx 0 order 0 = if idx = 0 then order.headD 0 else 0
  | [] => (ite_self _).symm
  | k :: order => by
    rw [walk, walk_eq idx order]
    by_cases h : idx = 0
    · rw [if_pos h.symm, if_pos h]
      rfl
    · rw [if_neg fun h' => h h'.symm, if_neg h, if_neg h]

/-- The default's list is a list just if the operator exists. -/
theorem oneOf_offers_iff {opid : BitVec 32} (hcn : listend.lookup nationCN = some operators)
    (hfilled : Filled operators) : Offers listend (some (oneOf r (operators.lookup opid))) ↔ opid ∈ operators := by
  cases hlist : operators.lookup opid with
  | none =>
    refine iff_of_false ?_ (AList.lookup_eq_none.1 hlist)
    rintro ⟨_, he, -⟩
    cases he
  | some list =>
    have hlen := hfilled opid list hlist
    refine iff_of_true ⟨list.getD (intn r list.length) [], ?_, nationCN, operators, opid, list, hcn, hlist,
      getD_intn_mem hlen⟩
      (AList.lookup_isSome.1 (by rw [hlist]; rfl))
    exact congrArg some (if_neg (by simpa using hlen))

theorem getDefault_offers_iff (hcn : listend.lookup nationCN = some operators) (hne : operators.keys ≠ [])
    (hfilled : Filled operators)
    (horder : order.Perm operators.keys) : Offers listend (some (getDefault listend order r r')) ↔
      BitVec.ofNat 32 (intn r operators.keys.length) = 0 ∨ 0 ∈ operators := by
  have hlen : operators.keys.length ≠ 0 := by simpa using hne
  rw [getDefault, hcn]
  simp only [hlen, if_false]
  rw [oneOf_offers_iff hcn hfilled, walk_eq, intn, Nat.mod_mod]
  by_cases hidx : BitVec.ofNat 32 (r % operators.keys.length) = 0
  · refine iff_of_true ?_ (.inl hidx)
    rw [if_pos hidx]
    cases order with
    | nil => exact absurd horder.nil_eq.symm hne
    | cons k rest => exact AList.mem_keys.2 (horder.mem_iff.1 List.mem_cons_self)
  · rw [if_neg hidx, or_iff_right hidx]

theorem iplistGet_eq (htyp : types.lookup typ = some listend) (h0 : typ ≠ 0) :
    iplistGet types ipdict typ clientip order r r' =
    match own listend (query ipdict clientip).join with
    | none => some (getDefault listend order r r')
    | some list => if list.length = 0 then none else some (some [list.getD (intn r list.length) []]) := by
  obtain ⟨item, hquery⟩ := Option.isSome_iff_exists.1 (IpDict.query_isSome ipdict clientip)
  rw [iplistGet, htyp, hquery]
  simp only [h0, if_false]
  cases item with
  | none => rfl
  | some item =>
    simp only [own, Option.join_some, Option.bind_some]
    cases listend.lookup item.nation with
    | none => rfl
    | some operators => cases operators.lookup item.opid <;> rfl

/-- A listener is offered just if the client's own nation and operator are known, or the default
finds one: by the index 0, or as the operator number 0. -/
theorem iplist_get_offers_iff (htyp : types.lookup typ = some listend) (hcn : listend.lookup nationCN = some operators)
    (hne : operators.keys ≠ []) (hfilled : Filled operators) (horder : order.Perm operators.keys) :
    Offers listend (iplistGet types ipdict typ clientip order r r') ↔ typ ≠ 0 ∧
      ((∃ list, own listend (query ipdict clientip).join = some list ∧ list ≠ []) ∨
        own listend (query ipdict clientip).join = none ∧
        (BitVec.ofNat 32 (intn r operators.keys.length) = 0 ∨ 0 ∈ operators)) := by
  by_cases h0 : typ = 0
  · refine iff_of_false ?_ fun h => h.1 h0
    rintro ⟨_, he, -⟩
    rw [iplistGet, htyp] at he
    simp [h0] at he
  · rw [iplistGet_eq htyp h0, and_iff_right h0]
    cases hown : own listend (query ipdict clientip).join with
    | none =>
      rw [getDefault_offers_iff hcn hne hfilled horder]
      simp
    | some list =>
      obtain ⟨item, hitem, hown⟩ := Option.bind_eq_some_iff.1 hown
      obtain ⟨ops, hops, hlist⟩ := Option.bind_eq_some_iff.1 hown
      by_cases hlen : list = []
      · subst hlen
        refine iff_of_false ?_ ?_
        · rintro ⟨_, he, -⟩
          cases he
        · rintro (⟨list, he, hne⟩ | ⟨he, -⟩)
          · exact hne (Option.some.inj he).symm
          · cases he
      · refine iff_of_true ⟨list.getD (intn r list.length) [], if_neg (by simpa using hlen), item.nation, ops,
          item.opid, list, hops, hlist, getD_intn_mem hlen⟩ (.inl ⟨list, rfl, hlen⟩)

/-- Two operators of the default nation, 5 and 6, with a listener each. -/
def twoOperators : Operators := AList.insert 6 [ascii ['b']] (AList.insert 5 [ascii ['a']] ∅)

def twoListend : LsndDictItem := AList.insert nationCN twoOperators ∅

def twoTypes : AList fun _ : Int => LsndDictItem := AList.insert 1 twoListend ∅

theorem filled_twoOperators : Filled twoOperators := by
  intro opid list h
  rw [twoOperators] at h
  by_cases h6 : opid = 6
  · subst h6
    rw [AList.lookup_insert] at h
    cases h
    decide
  · rw [AList.lookup_insert_ne h6] at h
    by_cases h5 : opid = 5
    · subst h5
      rw [AList.lookup_insert] at h
      cases h
      decide
    · rw [AList.lookup_insert_ne h5] at h
      cases h

theorem iplist_get_offers_two : Offers twoListend (iplistGet twoTypes [] 1 [] [6, 5] 0 0) ↔ (1 : Int) ≠ 0 ∧
    ((∃ list, own twoListend (query [] []).join = some list ∧ list ≠ []) ∨
      own twoListend (query [] []).join = none ∧
      (BitVec.ofNat 32 (intn 0 twoOperators.keys.length) = 0 ∨ 0 ∈ twoOperators)) :=
  iplist_get_offers_iff rfl rfl (by decide) filled_twoOperators (.refl _)

/-- The random number 1 picks neither of them. -/
theorem iplist_get_misses : ¬∀ (types : AList fun _ : Int => LsndDictItem) (ipdict : List IpDictItem) (typ : Int)
    (listend : LsndDictItem)
    (operators : Operators) (clientip : List Byte) (order : List (BitVec 32)) (r r' : Nat), typ ≠ 0 →
    types.lookup typ = some listend →
    listend.lookup nationCN = some operators → operators.keys ≠ [] → Filled operators → order.Perm operators.keys →
    Offers listend (iplistGet types ipdict typ clientip order r r') := by
  intro h
  obtain ⟨addr, hget, -⟩ := h twoTypes [] 1 twoListend twoOperators [] [6, 5] 1 0 (by decide) rfl rfl
    (by decide) filled_twoOperators (.refl _)
  have hnil : iplistGet twoTypes [] 1 [] [6, 5] 1 0 = some none := by decide
  rw [hnil] at hget
  cases hget

end BeehiveIm.Usrsvr

/-
The byte trie (`trie.c`). A node's children are a table of 256 cells, one for each byte; a cell is
in use when its key is the byte. The allocator zeroes what it hands out. A NULL pointer that is
followed is `none`. Left out: `trie_print` and `trie_destroy`.

Neither the end of a string nor the lack of a child is recorded, so after any sequence of inserts a
query is right just for the strings that were inserted, and for those that leave the inserted ones
where the walk can see it: at a byte other than 0, in a table that is there.
-/
import BeehiveIm.Lib.Run
import Mathlib.Data.List.Infix
import Mathlib.Logic.Function.Basic

namespace BeehiveIm.Core

open BeehiveIm.Lib

/-- A table of cells (`trie_node_t`) with their keys, data and children, or NULL. -/
inductive Trie where
  | null
  | node (key : UInt8 → UInt8) (data : UInt8 → Nat) (child : UInt8 → Trie)

namespace Trie

def isNull : Trie → Bool
  | .null => true
  | .node .. => false

/-- A table as it is allocated -/
def zeroed : Trie := .node (fun _ => 0) (fun _ => 0) fun _ => .null

/-- The root of `trie_creat` -/
def trieCreat : Trie := zeroed

/-- `trie_insert`, and whether it succeeds; `mem` more allocations succeed. -/
def trieInsert : Trie → List UInt8 → Nat → Nat → Option (Trie × Bool)
  | t, [], _, _ => some (t, false)
  | .null, _ :: _, _, _ => none
  | .node key data child, [c], d, _ =>
    some (.node (Function.update key c c) (Function.update data c d) child, true)
  | .node key data child, c :: c' :: str, d, mem =>
    let key := Function.update key c c
    if (child c).isNull then
      if mem = 0 then some (.node key data child, false)
      else
        (trieInsert zeroed (c' :: str) d (mem - 1)).map fun r => (.node key data (Function.update child c r.1), r.2)
    else (trieInsert (child c) (c' :: str) d mem).map fun r => (.node key data (Function.update child c r.1), r.2)

/-- `trie_query`: what it returns, and the data. -/
def trieQuery : Trie → List UInt8 → Option (Int × Nat)
  | _, [] => some (-1, 0)
  | .null, _ :: _ => none
  | .node key data child, c :: str =>
    if key c ≠ c then some (-1, 0)
    else if str = [] then some (0, data c)
    else trieQuery (child c) str

/-- A call of `trie_insert`, in which `mem` allocations succeed. -/
structure Insert where
  str : List UInt8
  data : Nat
  mem : Nat

def step (t : Trie) (call : Insert) : Option Trie := (t.trieInsert call.str call.data call.mem).map (·.1)

/-! ## What was inserted -/

/-- The strings that inserts have walked, the last one first, each with the data that was stored at
its end; an insert that ran out of memory has stored none. -/
abbrev Walks := List (List UInt8 × Option Nat)

/-- The walks that start with a byte, from there on -/
def after (ws : Walks) (c : UInt8) : Walks :=
  ws.filterMap fun w => if w.1.head? = some c then some (w.1.tail, w.2) else none

/-- Some walk goes on behind the byte. -/
def GoesOn (ws : Walks) (c : UInt8) : Prop := ∃ w ∈ after ws c, w.1 ≠ []

instance (ws : Walks) (c : UInt8) : Decidable (GoesOn ws c) := List.decidableBEx _ _

/-- How far an insert gets: over the tables that are there, and then as many as can be allocated. -/
def reach (ws : Walks) : List UInt8 → Nat → List UInt8
  | [], _ => []
  | [c], _ => [c]
  | c :: c' :: str, mem =>
    if GoesOn ws c then c :: reach (after ws c) (c' :: str) mem
    else if mem = 0 then [c]
    else c :: reach (after ws c) (c' :: str) (mem - 1)

/-- The walks after a call -/
def insert (ws : Walks) (call : Insert) : Walks :=
  (reach ws call.str call.mem, if reach ws call.str call.mem = call.str then some call.data else none) :: ws

/-- The data of the last insertion of a string -/
def inserted (ws : Walks) (str : List UInt8) : Option Nat := ws.findSome? fun w => if w.1 = str then w.2 else none

/-- Some insert has walked over the whole of `p`. -/
def Walked (ws : Walks) (p : List UInt8) : Prop := ∃ w ∈ ws, p <+: w.1

/-- Behind `p` there is a table. -/
def Inner (ws : Walks) (p : List UInt8) : Prop := p = [] ∨ ∃ c, Walked ws (p ++ [c])

/-- The string leaves the walks at a byte other than 0, where there is a table. -/
def Leaves (ws : Walks) (str : List UInt8) : Prop :=
  ∃ p c, p ++ [c] <+: str ∧ Inner ws p ∧ ¬Walked ws (p ++ [c]) ∧ c ≠ 0

/-- A string that a query tells apart: it is empty, was inserted, or leaves the walks. -/
def Told (ws : Walks) (str : List UInt8) : Prop := str = [] ∨ (inserted ws str).isSome ∨ Leaves ws str

variable {ws : Walks} {c x : UInt8} {p str : List UInt8} {o : Option Nat} {t : Trie} {d mem : Nat}

theorem mem_after {w : List UInt8 × Option Nat} : w ∈ after ws c ↔ (c :: w.1, w.2) ∈ ws := by
  unfold after
  rw [List.mem_filterMap]
  constructor
  · rintro ⟨⟨s, o⟩, hmem, hw⟩
    split at hw
    · rename_i hhead
      cases s with
      | nil => cases hhead
      | cons x s =>
        cases Option.some.inj hhead
        cases hw
        exact hmem
    · cases hw
  · intro hmem
    exact ⟨_, hmem, by simp⟩

theorem after_cons_self : after ((c :: p, o) :: ws) c = (p, o) :: after ws c := by simp [after]

theorem after_cons_ne (hx : x ≠ c) : after ((c :: p, o) :: ws) x = after ws x := by simp [after, hx.symm]

theorem after_cons_nil : after (([], o) :: ws) c = after ws c := by simp [after]

theorem inserted_cons : inserted ws (c :: str) = inserted (after ws c) str := by
  unfold inserted after
  induction ws with
  | nil => rfl
  | cons w ws ih =>
    obtain ⟨s, o⟩ := w
    rw [List.findSome?_cons, ih, List.filterMap_cons]
    cases s with
    | nil => simp
    | cons x s =>
      by_cases hx : x = c
      · subst hx
        simp [List.findSome?_cons]
      · simp [hx]

theorem walked_cons : Walked ws (c :: p) ↔ Walked (after ws c) p := by
  constructor
  · rintro ⟨⟨s, o⟩, hmem, r, hr⟩
    refine ⟨(p ++ r, o), mem_after.2 ?_, p.prefix_append r⟩
    rw [← List.cons_append, hr]
    exact hmem
  · rintro ⟨⟨s, o⟩, hmem, hp⟩
    exact ⟨(c :: s, o), mem_after.1 hmem, List.cons_prefix_cons.2 ⟨rfl, hp⟩⟩

theorem walked_singleton : Walked ws [c] ↔ after ws c ≠ [] := by
  rw [walked_cons]
  constructor
  · rintro ⟨w, hw, -⟩
    exact List.ne_nil_of_mem hw
  · intro h
    obtain ⟨w, l, hw⟩ := List.exists_cons_of_ne_nil h
    exact ⟨w, by rw [hw]; exact List.mem_cons_self, List.nil_prefix⟩

theorem goesOn_iff : GoesOn ws c ↔ ∃ x, Walked ws [c, x] := by
  constructor
  · rintro ⟨⟨s, o⟩, hmem, hs⟩
    obtain ⟨x, s, rfl⟩ := List.exists_cons_of_ne_nil hs
    exact ⟨x, _, mem_after.1 hmem, by simp⟩
  · rintro ⟨x, hx⟩
    rw [walked_cons] at hx
    obtain ⟨w, hw, r, hr⟩ := hx
    exact ⟨w, hw, by rw [← hr]; simp⟩

/-! ## The tables -/

/-- The tables hold the walks: a key for each byte that a walk starts with, the data that was last
stored there, and a child where a walk goes on. -/
def Holds : Trie → Walks → Prop
  | .null, ws => ∀ w ∈ ws, w.1 = []
  | .node key data child, ws => ∀ c, (key c = if after ws c = [] then 0 else c) ∧
      data c = (inserted ws [c]).getD 0 ∧ (child c = .null ↔ ¬GoesOn ws c) ∧ Holds (child c) (after ws c)

theorem holds_cons_nil : Holds t (([], o) :: ws) ↔ Holds t ws := by
  cases t with
  | null => simp [Holds]
  | node key data child =>
    refine forall_congr' fun c => ?_
    rw [after_cons_nil, inserted_cons, inserted_cons, GoesOn, GoesOn, after_cons_nil]

/-- A new table holds walks that end here. -/
theorem holds_zeroed (h : ∀ w ∈ ws, w.1 = []) : Holds zeroed ws := by
  intro c
  have hnone : after ws c = [] := List.filterMap_eq_nil_iff.2 fun w hw => by simp [h w hw]
  refine ⟨by simp [hnone], ?_, ?_, ?_⟩
  · rw [inserted_cons, hnone]
    rfl
  · exact iff_of_true rfl fun ⟨w, hw, _⟩ => by simp [hnone] at hw
  · rw [hnone]
    exact fun w hw => (List.not_mem_nil hw).elim

/-- A walk over `c` changes only its cell. -/
theorem holds_walk {key : UInt8 → UInt8} {data data' : UInt8 → Nat} {child child' : UInt8 → Trie} (h : Holds (.node key data child) ws)
    (hdata : ∀ x, x ≠ c → data' x = data x) (hchild : ∀ x, x ≠ c → child' x = child x)
    (hd : data' c = (inserted ((p, o) :: after ws c) []).getD 0)
    (hnull : child' c = .null ↔ p = [] ∧ ¬GoesOn ws c) (hc : Holds (child' c) ((p, o) :: after ws c)) :
    Holds (.node (Function.update key c c) data' child') ((c :: p, o) :: ws) := by
  intro x
  by_cases hx : x = c
  · subst hx
    rw [inserted_cons, GoesOn, after_cons_self]
    refine ⟨by simp, hd, hnull.trans ?_, hc⟩
    rw [List.exists_mem_cons_iff, not_or, not_ne_iff]
    rfl
  · rw [inserted_cons, GoesOn, after_cons_ne hx, Function.update_of_ne hx, hdata x hx, hchild x hx]
    have hold := h x
    rwa [inserted_cons] at hold

theorem isNull_iff : t.isNull = true ↔ t = .null := by
  cases t <;> simp [isNull]

/-- An insert walks as far as it gets, and stores its data if it gets to the end. -/
theorem insert_spec : ∀ {str : List UInt8} {ws : Walks} {t : Trie} (mem : Nat), str ≠ [] → t ≠ .null → Holds t ws →
    ∃ t', t.trieInsert str d mem = some (t', decide (reach ws str mem = str)) ∧ t' ≠ .null ∧ reach ws str mem ≠ [] ∧
      Holds t' ((reach ws str mem, if reach ws str mem = str then some d else none) :: ws)
  | [], _, _, _, hstr, _, _ => absurd rfl hstr
  | _ :: _, _, .null, _, _, ht, _ => absurd rfl ht
  | [c], ws, .node key data child, mem, _, _, h => by
    have hreach : reach ws [c] mem = [c] := rfl
    obtain ⟨-, -, hnull, hchild⟩ := h c
    refine ⟨_, by rw [hreach, decide_eq_true rfl]; rfl, by simp, by simp [hreach], ?_⟩
    rw [hreach, if_pos rfl]
    refine holds_walk h (fun x hx => Function.update_of_ne hx ..) (fun x _ => rfl) ?_ ?_ ?_
    · rw [Function.update_self]
      simp [inserted]
    · rw [hnull]
      simp
    · exact holds_cons_nil.2 hchild
  | c :: c' :: str, ws, .node key data child, mem, _, _, h => by
    obtain ⟨-, hdata, hnull, hchild⟩ := h c
    -- a child that is there, or that is allocated, takes the rest of the string
    have hrest : ∀ (t : Trie) (mem : Nat), t ≠ .null → Holds t (after ws c) →
        ∃ t', t.trieInsert (c' :: str) d mem = some (t', decide (reach (after ws c) (c' :: str) mem = c' :: str)) ∧
          Holds (.node (Function.update key c c) data (Function.update child c t'))
            ((c :: reach (after ws c) (c' :: str) mem,
              if reach (after ws c) (c' :: str) mem = c' :: str then some d else none) :: ws) := by
      intro t mem ht hholds
      obtain ⟨t', hins, ht', hne, hholds'⟩ := insert_spec mem (List.cons_ne_nil c' str) ht hholds
      refine ⟨t', hins, holds_walk h (fun x _ => rfl) (fun x hx => Function.update_of_ne hx ..) ?_ ?_ ?_⟩
      · rw [hdata, inserted_cons]
        simp [inserted, hne]
      · rw [Function.update_self]
        exact iff_of_false ht' fun h => hne h.1
      · rwa [Function.update_self]
    have hcons : ∀ p : List UInt8, c :: p = c :: c' :: str ↔ p = c' :: str := fun p => by simp
    by_cases hgoes : GoesOn ws c
    · have hne : child c ≠ .null := fun hc => hnull.1 hc hgoes
      obtain ⟨t', hins, hholds⟩ := hrest (child c) mem hne hchild
      have hreach : reach ws (c :: c' :: str) mem = c :: reach (after ws c) (c' :: str) mem := by
        rw [reach, if_pos hgoes]
      rw [hreach]
      simp only [hcons]
      refine ⟨_, ?_, by simp, by simp, hholds⟩
      rw [trieInsert, if_neg fun hc => hne (isNull_iff.1 hc), hins]
      rfl
    have hc : child c = .null := hnull.2 hgoes
    have hisNull : (child c).isNull = true := isNull_iff.2 hc
    by_cases hmem : mem = 0
    · have hreach : reach ws (c :: c' :: str) mem = [c] := by rw [reach, if_neg hgoes, if_pos hmem]
      have hshort : ¬[c] = c :: c' :: str := by simp
      rw [hreach, if_neg hshort, decide_eq_false hshort]
      refine ⟨_, by rw [trieInsert, if_pos hisNull, if_pos hmem], by simp, by simp, ?_⟩
      refine holds_walk h (fun x _ => rfl) (fun x _ => rfl) ?_ ?_ (holds_cons_nil.2 hchild)
      · rw [hdata, inserted_cons]
        simp [inserted]
      · exact iff_of_true hc ⟨rfl, hgoes⟩
    · have hends : ∀ w ∈ after ws c, w.1 = [] := fun w hw => by
        by_contra hne
        exact hgoes ⟨w, hw, hne⟩
      obtain ⟨t', hins, hholds⟩ := hrest zeroed (mem - 1) (by simp [zeroed]) (holds_zeroed hends)
      have hreach : reach ws (c :: c' :: str) mem = c :: reach (after ws c) (c' :: str) (mem - 1) := by
        rw [reach, if_neg hgoes, if_neg hmem]
      rw [hreach]
      simp only [hcons]
      refine ⟨_, ?_, by simp, by simp, hholds⟩
      rw [trieInsert, if_pos hisNull, if_neg hmem, hins]
      rfl

/-! ## Queries -/

theorem leaves_cons : Leaves ws (c :: str) ↔ ¬Walked ws [c] ∧ c ≠ 0 ∨ GoesOn ws c ∧ Leaves (after ws c) str := by
  constructor
  · rintro ⟨p, x, hprefix, hinner, hnot, hx⟩
    cases p with
    | nil =>
      rw [List.nil_append, List.cons_prefix_cons] at hprefix
      obtain ⟨rfl, -⟩ := hprefix
      exact .inl ⟨hnot, hx⟩
    | cons y p =>
      rw [List.cons_append, List.cons_prefix_cons] at hprefix
      obtain ⟨rfl, hprefix⟩ := hprefix
      rw [List.cons_append, walked_cons] at hnot
      obtain ⟨z, hz⟩ := hinner.resolve_left (List.cons_ne_nil y p)
      rw [List.cons_append, walked_cons] at hz
      obtain ⟨w, hw, r, hr⟩ := hz
      exact .inr ⟨⟨w, hw, by rw [← hr]; simp⟩, p, x, hprefix, .inr ⟨z, w, hw, r, hr⟩, hnot, hx⟩
  · rintro (⟨hnot, hc⟩ | ⟨hgoes, p, x, hprefix, hinner, hnot, hx⟩)
    · exact ⟨[], c, by simp, .inl rfl, hnot, hc⟩
    · refine ⟨c :: p, x, List.cons_prefix_cons.2 ⟨rfl, hprefix⟩, .inr ?_, ?_, hx⟩
      · rcases hinner with rfl | ⟨y, hy⟩
        · exact goesOn_iff.1 hgoes
        · exact ⟨y, walked_cons.2 hy⟩
      · rw [List.cons_append, walked_cons]
        exact hnot

/-- Where no walk goes on, nothing longer was inserted. -/
theorem inserted_of_not_goesOn (h : ¬GoesOn ws c) (hstr : str ≠ []) : inserted ws (c :: str) = none := by
  rw [inserted_cons]
  unfold inserted
  rw [List.findSome?_eq_none_iff]
  intro w hw
  refine if_neg fun hs => h ⟨w, hw, ?_⟩
  rw [hs]
  exact hstr

theorem trieQuery_nil : t.trieQuery [] = some (-1, 0) := by
  cases t <;> rfl

/-- What a query answers for a string that was inserted, or was not. -/
def result (ws : Walks) (str : List UInt8) : Int × Nat := (inserted ws str).elim (-1, 0) fun d => (0, d)

/-- A query is right just where the string is told apart. -/
theorem query_iff : ∀ {str : List UInt8} {ws : Walks} {t : Trie}, str ≠ [] → t ≠ .null → Holds t ws →
    (t.trieQuery str = some (result ws str) ↔ Told ws str)
  | [], _, _, hstr, _, _ => absurd rfl hstr
  | _ :: _, _, .null, _, ht, _ => absurd rfl ht
  | c :: str, ws, .node key data child, _, _, h => by
    obtain ⟨hkey, hdata, hnull, hchild⟩ := h c
    have hnot : key c ≠ c ↔ ¬Walked ws [c] ∧ c ≠ 0 := by
      rw [walked_singleton, not_not, hkey]
      split
      · rename_i hafter
        exact ⟨fun h => ⟨hafter, h.symm⟩, fun h => h.2.symm⟩
      · rename_i hafter
        exact ⟨fun h => absurd rfl h, fun h => absurd h.1 hafter⟩
    rw [trieQuery]
    by_cases hk : key c ≠ c
    · rw [if_pos hk]
      obtain ⟨hw, hc⟩ := hnot.1 hk
      have hnone : inserted ws (c :: str) = none := by
        rw [inserted_cons, not_not.1 (mt walked_singleton.2 hw)]
        rfl
      rw [result, hnone]
      exact iff_of_true rfl (.inr (.inr (leaves_cons.2 (.inl ⟨hw, hc⟩))))
    rw [if_neg hk]
    have hleaves : Leaves ws (c :: str) ↔ GoesOn ws c ∧ Leaves (after ws c) str := by
      rw [leaves_cons, or_iff_right fun h => hk (hnot.2 h)]
    rw [Told, or_iff_right (List.cons_ne_nil c str), hleaves]
    by_cases hstr : str = []
    · rw [if_pos hstr]
      subst hstr
      have hno : ¬Leaves (after ws c) [] := by
        rintro ⟨p, x, hprefix, -⟩
        simp at hprefix
      rw [hdata, result, or_iff_left fun h => hno h.2]
      cases inserted ws [c] <;> simp
    rw [if_neg hstr]
    by_cases hgoes : GoesOn ws c
    · have hne : child c ≠ .null := fun hc => hnull.1 hc hgoes
      have hsub := query_iff hstr hne hchild
      rw [Told, or_iff_right hstr] at hsub
      rw [result, inserted_cons, and_iff_right hgoes]
      exact hsub
    · rw [hnull.2 hgoes, inserted_of_not_goesOn hgoes hstr]
      obtain ⟨x, str, rfl⟩ := List.exists_cons_of_ne_nil hstr
      rw [trieQuery]
      exact iff_of_false (by simp) (by simp [hgoes])

/-! ## Runs -/

theorem run_holds (calls : List Insert) (hstr : ∀ call ∈ calls, call.str ≠ []) :
    ∃ t, calls.foldlM step trieCreat = some t ∧ t ≠ .null ∧ Holds t (calls.foldl insert []) ∧
      ∀ w ∈ calls.foldl insert [], w.1 ≠ [] := by
  have hstep : ∀ (t : Trie) (ws : Walks) (call : Insert), (t ≠ .null ∧ Holds t ws ∧ ∀ w ∈ ws, w.1 ≠ []) →
      call.str ≠ [] → ∃ t', step t call = some t' ∧ t' ≠ .null ∧ Holds t' (insert ws call) ∧
        ∀ w ∈ insert ws call, w.1 ≠ [] := by
    rintro t ws call ⟨ht, hholds, hws⟩ hcall
    obtain ⟨t', hins, ht', hne, hholds'⟩ := insert_spec (d := call.data) call.mem hcall ht hholds
    refine ⟨t', by rw [step, hins]; rfl, ht', hholds', fun w hw => ?_⟩
    rcases List.mem_cons.1 hw with rfl | hw
    · exact hne
    · exact hws w hw
  exact simulate hstep calls trieCreat [] ⟨by simp [trieCreat, zeroed], holds_zeroed (by simp), by simp⟩
    ((guarded_forall calls []).2 hstr)

/-- After every sequence of inserts of strings that are not empty, a query answers what was inserted
last if and only if it tells the string apart. -/
theorem run_query_iff (calls : List Insert) (hstr : ∀ call ∈ calls, call.str ≠ []) :
    ∃ t, calls.foldlM step trieCreat = some t ∧ ∀ str,
      t.trieQuery str = some (result (calls.foldl insert []) str) ↔ Told (calls.foldl insert []) str := by
  obtain ⟨t, hrun, ht, hholds, hws⟩ := run_holds calls hstr
  refine ⟨t, hrun, fun str => ?_⟩
  by_cases hnil : str = []
  · subst hnil
    have hnone : inserted (calls.foldl insert []) [] = none :=
      List.findSome?_eq_none_iff.2 fun w hw => if_neg (hws w hw)
    rw [trieQuery_nil, result, hnone]
    exact iff_of_true rfl (.inl rfl)
  · exact query_iff hnil ht hholds

/-- With `ab` and `ac` inserted -/
theorem run_query_iff_two : ∃ t, [Insert.mk [97, 98] 7 9, ⟨[97, 99], 8, 9⟩].foldlM step trieCreat = some t ∧ ∀ str,
    t.trieQuery str = some (result ([Insert.mk [97, 98] 7 9, ⟨[97, 99], 8, 9⟩].foldl insert []) str) ↔
      Told ([Insert.mk [97, 98] 7 9, ⟨[97, 99], 8, 9⟩].foldl insert []) str :=
  run_query_iff [⟨[97, 98], 7, 9⟩, ⟨[97, 99], 8, 9⟩] (by simp)

/-- With `ab` inserted, `a` is found, `abc` follows NULL, and the byte 0 is found. -/
theorem never_inserted : ∃ t, [Insert.mk [97, 98] 7 9].foldlM step trieCreat = some t ∧
    t.trieQuery [97] = some (0, 0) ∧ t.trieQuery [97, 98, 99] = none ∧ t.trieQuery [0] = some (0, 0) ∧
    inserted ([Insert.mk [97, 98] 7 9].foldl insert []) [97] = none := by
  exact ⟨_, rfl, by decide, by decide, by decide, by decide⟩

end Trie

end BeehiveIm.Core

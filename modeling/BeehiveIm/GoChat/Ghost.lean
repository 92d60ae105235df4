/-
No ghost members: what a session lists its room's group contains or a join is about to put there,
and what a group contains its session lists or is about to be taken out. When all calls have
returned, nothing is about to happen.
-/
import BeehiveIm.GoChat.Race
import BeehiveIm.GoChat.Sections

namespace BeehiveIm.GoChat

open BeehiveIm.Lib BeehiveIm.Chat

variable {τ π : Type} {rid : Rid} {gid : Gid} {key : ChatSessionKey}

/-! ## Rooms and groups stay -/

/-- The room `rid` and its groups are still there. -/
structure Stays (tab tab' : ChatTab π) (rid : Rid) : Prop where
  room : (tab.roomQuery rid).isSome → (tab'.roomQuery rid).isSome
  group : ∀ gid, (tab.groupQuery rid gid).isSome → (tab'.groupQuery rid gid).isSome

namespace Stays

variable {tab tab' : ChatTab π} {room : ChatRoomItem}

theorem of_rooms (h : tab'.rooms = tab.rooms) (rid : Rid) : Stays tab tab' rid := by
  refine ⟨fun hr => ?_, fun gid hg => ?_⟩
  · rw [ChatTab.roomQuery, h]
    exact hr
  · rw [ChatTab.groupQuery, h]
    exact hg

/-- A room is written with the groups it had, or one more. -/
theorem set {r : Rid} {room' : ChatRoomItem} (hroom : tab.rooms.get r = some room)
    (hgroups : ∀ gid, (room.groups.get gid).isSome → (room'.groups.get gid).isSome) (rid : Rid) :
    Stays tab { tab with rooms := tab.rooms.set r room' } rid := by
  refine ⟨fun hr => ?_, fun gid hg => ?_⟩
  · simp only [ChatTab.roomQuery, Shards.get_set] at hr ⊢
    split
    · rfl
    · exact hr
  · simp only [ChatTab.groupQuery, Shards.get_set] at hg ⊢
    split
    · rename_i heq
      rw [heq, hroom] at hg
      exact hgroups gid hg
    · exact hg

theorem put {r : Rid} (hroom : tab.rooms.get r = some room) (sidNum : Int) (gid : Gid) (group : ChatGroupItem)
    (rid : Rid) : Stays tab { tab with rooms := tab.rooms.set r (room.put sidNum gid group) } rid := by
  refine set hroom (fun g hg => ?_) rid
  simp only [ChatRoomItem.put, Shards.get_set]
  split
  · rfl
  · exact hg

theorem refl (tab : ChatTab π) (rid : Rid) : Stays tab tab rid := of_rooms rfl rid

theorem roomAdd (tab : ChatTab π) (r rid : Rid) : Stays tab (tab.roomAdd r) rid := by
  unfold ChatTab.roomAdd
  split
  · rename_i hnone
    refine ⟨fun hr => ?_, fun gid hg => ?_⟩
    · simp only [ChatTab.roomQuery, Shards.get_set] at hr ⊢
      split
      · rfl
      · exact hr
    · simp only [ChatTab.groupQuery, Shards.get_set] at hg ⊢
      split
      · rename_i heq
        simp [heq, hnone] at hg
      · exact hg
  · exact refl tab rid

theorem groupAdd (tab : ChatTab π) (r : Rid) (gid : Gid) (rid : Rid) : Stays tab (tab.groupAdd r gid) rid := by
  unfold ChatTab.groupAdd
  split
  · exact refl tab rid
  · rename_i room hroom
    split
    · exact put hroom ..
    · exact refl tab rid

theorem groupJoin (tab : ChatTab π) (r : Rid) (gid : Gid) (key : ChatSessionKey) (rid : Rid) :
    Stays tab (tab.groupJoin r gid key) rid := by
  unfold ChatTab.groupJoin
  split
  · exact refl tab rid
  · rename_i room hroom
    split
    · exact refl tab rid
    · split
      · exact refl tab rid
      · exact put hroom ..

theorem roomDelSession (tab : ChatTab π) (r : Rid) (gid : Gid) (sid cid : BitVec 64) (rid : Rid) :
    Stays tab (tab.roomDelSession r gid sid cid) rid := by
  unfold ChatTab.roomDelSession
  split
  · exact refl tab rid
  · rename_i room hroom
    split
    · exact refl tab rid
    · split
      · exact put hroom ..
      · exact refl tab rid

/-- `Clean` takes away no other room. -/
theorem roomClean (tab : ChatTab π) {r : Rid} (hne : rid ≠ r) : Stays tab (tab.roomClean r) rid := by
  unfold ChatTab.roomClean
  split
  · exact refl tab rid
  · split
    · exact refl tab rid
    · refine ⟨fun hr => ?_, fun gid hg => ?_⟩
      · simpa only [ChatTab.roomQuery, Shards.get_del, if_neg hne] using hr
      · simpa only [ChatTab.groupQuery, Shards.get_del, if_neg hne] using hg

end Stays

/-! ## The invariant -/

namespace World

variable {W W' : World τ π} {M M' : Rid → Gid → ChatSessionKey → Prop} {t u : τ} {pc : Pc}

theorem lists_eq : W.lists rid key = (view W.tab.sessions).lists key rid := by
  cases h : W.tab.sessions.get key <;> simp [lists, Membership.lists, view, h]

/-- What a goroutine at `pc` has locked is there. -/
def At (W : World τ π) (t : τ) : Pc → Prop
  | .groupAdd rid _ _ | .groupQuery rid _ _ => t ∈ W.roomRd (roomSlot rid) ∧ (W.tab.roomQuery rid).isSome
  | .groupJoin rid gid _ => t ∈ W.roomRd (roomSlot rid) ∧ (W.tab.groupQuery rid gid).isSome
  | _ => True

structure Inv (W : World τ π) (M : Rid → Gid → ChatSessionKey → Prop) : Prop where
  holds : Holds W.tab.rooms M
  member : ∀ rid gid key, W.lists rid key = some gid → M rid gid key ∨ W.Joining rid gid key
  listed : ∀ rid gid key, M rid gid key → W.lists rid key = some gid ∨ W.Removing rid gid key
  threads : ∀ t, W.At t (W.pc t)

theorem At.mono (h : W.At u pc) (hrd : ∀ i, u ∈ W.roomRd i → u ∈ W'.roomRd i)
    (hstays : ∀ rid, u ∈ W.roomRd (roomSlot rid) → Stays W.tab W'.tab rid) : W'.At u pc := by
  cases pc with
  | groupAdd | groupQuery => exact ⟨hrd _ h.1, (hstays _ h.1).room h.2⟩
  | groupJoin => exact ⟨hrd _ h.1, (hstays _ h.1).group _ h.2⟩
  | _ => trivial

variable [DecidableEq τ]

omit [DecidableEq τ] in
theorem init_inv : (init τ π).Inv fun _ _ _ => False where
  holds := Holds.init
  member rid gid key h := by simp [init, lists, ChatTab.init] at h
  listed _ _ _ h := h.elim
  threads _ := trivial

theorem joining_goto {tab : ChatTab π} : (W.goto t tab pc).Joining rid gid key ↔
    pc.joins = some (rid, gid, key) ∨ ∃ u ≠ t, (W.pc u).joins = some (rid, gid, key) := by
  constructor
  · rintro ⟨u, hu⟩
    rcases eq_or_ne u t with rfl | hne
    · exact .inl (by simpa [goto] using hu)
    · exact .inr ⟨u, hne, by simpa [goto, hne] using hu⟩
  · rintro (h | ⟨u, hne, hu⟩)
    · exact ⟨t, by simpa [goto] using h⟩
    · exact ⟨u, by simpa [goto, hne] using hu⟩

theorem removing_goto {tab : ChatTab π} : (W.goto t tab pc).Removing rid gid key ↔
    (rid, gid, key) ∈ pc.removes ∨ ∃ u ≠ t, (rid, gid, key) ∈ (W.pc u).removes := by
  constructor
  · rintro ⟨u, hu⟩
    rcases eq_or_ne u t with rfl | hne
    · exact .inl (by simpa [goto] using hu)
    · exact .inr ⟨u, hne, by simpa [goto, hne] using hu⟩
  · rintro (h | ⟨u, hne, hu⟩)
    · exact ⟨t, by simpa [goto] using h⟩
    · exact ⟨u, by simpa [goto, hne] using hu⟩

/-! ## Sections -/

/-- A goroutine other than `t` is to join. -/
def JoiningBut (W : World τ π) (t : τ) (rid : Rid) (gid : Gid) (key : ChatSessionKey) : Prop :=
  ∃ u ≠ t, (W.pc u).joins = some (rid, gid, key)

/-- A goroutine other than `t` is to remove. -/
def RemovingBut (W : World τ π) (t : τ) (rid : Rid) (gid : Gid) (key : ChatSessionKey) : Prop :=
  ∃ u ≠ t, (rid, gid, key) ∈ (W.pc u).removes

omit [DecidableEq τ] in
theorem Joining.but (h : W.Joining rid gid key) (ht : (W.pc t).joins ≠ some (rid, gid, key)) :
    W.JoiningBut t rid gid key :=
  let ⟨u, hu⟩ := h
  ⟨u, fun heq => ht (heq ▸ hu), hu⟩

omit [DecidableEq τ] in
theorem Removing.but (h : W.Removing rid gid key) (ht : (rid, gid, key) ∉ (W.pc t).removes) :
    W.RemovingBut t rid gid key :=
  let ⟨u, hu⟩ := h
  ⟨u, fun heq => ht (heq ▸ hu), hu⟩

/-- `t` does a section, with the readers that `W₁` has, and goes on at `pc`. -/
theorem Inv.goto (h : W.Inv M) {W₁ : World τ π} {tab : ChatTab π} (hpcs : W₁.pc = W.pc) (hholds : Holds tab.rooms M')
    (hmember : ∀ rid gid key, (view tab.sessions).lists key rid = some gid →
      M' rid gid key ∨ pc.joins = some (rid, gid, key) ∨ W.JoiningBut t rid gid key)
    (hlisted : ∀ rid gid key, M' rid gid key →
      (view tab.sessions).lists key rid = some gid ∨ (rid, gid, key) ∈ pc.removes ∨ W.RemovingBut t rid gid key)
    (hat : (W₁.goto t tab pc).At t pc) (hrd : ∀ u ≠ t, ∀ i, u ∈ W.roomRd i → u ∈ W₁.roomRd i)
    (hstays : ∀ u ≠ t, ∀ rid, u ∈ W.roomRd (roomSlot rid) → Stays W.tab tab rid) : (W₁.goto t tab pc).Inv M' := by
  refine ⟨hholds, fun rid gid key hl => ?_, fun rid gid key hm => ?_, fun u => ?_⟩
  · rw [joining_goto, hpcs]
    rw [lists_eq] at hl
    exact hmember rid gid key hl
  · rw [lists_eq, removing_goto, hpcs]
    exact hlisted rid gid key hm
  · rcases eq_or_ne u t with rfl | hne
    · simpa [World.goto] using hat
    · rw [show (W₁.goto t tab pc).pc u = W.pc u by simp [World.goto, hne, hpcs]]
      exact (h.threads u).mono (hrd u hne) (hstays u hne)

/-- A section that neither touches a session or a member nor gets on with a join or a removal. -/
theorem Inv.quiet (h : W.Inv M) {W₁ : World τ π} {tab : ChatTab π} (hpcs : W₁.pc = W.pc)
    (hsessions : tab.sessions = W.tab.sessions) (hholds : Holds tab.rooms M)
    (hjoins : pc.joins = (W.pc t).joins) (hremoves : pc.removes = (W.pc t).removes)
    (hat : (W₁.goto t tab pc).At t pc) (hrd : ∀ u ≠ t, ∀ i, u ∈ W.roomRd i → u ∈ W₁.roomRd i)
    (hstays : ∀ u ≠ t, ∀ rid, u ∈ W.roomRd (roomSlot rid) → Stays W.tab tab rid) : (W₁.goto t tab pc).Inv M := by
  refine h.goto hpcs hholds (fun rid gid key hl => ?_) (fun rid gid key hm => ?_) hat hrd hstays
  · rw [hsessions, ← lists_eq] at hl
    by_cases hj : (W.pc t).joins = some (rid, gid, key)
    · exact .inr (.inl (hjoins.trans hj))
    · exact (h.member rid gid key hl).imp id fun h => .inr (h.but hj)
  · rw [hsessions, ← lists_eq]
    by_cases hr : (rid, gid, key) ∈ (W.pc t).removes
    · exact .inr (.inl (hremoves ▸ hr))
    · exact (h.listed rid gid key hm).imp id fun h => .inr (h.but hr)

/-- A member is taken out of its group; a session that lists it is to be put back. -/
theorem Inv.remove (h : W.Inv M) (hjoins : (W.pc t).joins = none)
    (hremoves : ∀ x, x ∈ (W.pc t).removes → x = (rid, gid, key) ∨ x ∈ pc.removes)
    (hat : ∀ W₁ : World τ π, W₁.At t pc) (hagrees : W.lists rid key = some gid → W.Joining rid gid key) :
    (W.goto t (W.tab.roomDelSession rid gid key.1 key.2) pc).Inv
      fun r g k => M r g k ∧ ¬(r = rid ∧ g = gid ∧ k = key) := by
  have hsame := (roomDelSession_same W.tab rid gid key.1 key.2).1
  refine h.goto rfl (h.holds.delSession rid gid key.1 key.2) (fun r g k hl => ?_) (fun r g k hm => ?_) (hat _)
    (fun _ _ _ hu => hu) fun _ _ r _ => Stays.roomDelSession W.tab rid gid key.1 key.2 r
  · rw [hsame, ← lists_eq] at hl
    by_cases heq : r = rid ∧ g = gid ∧ k = key
    · obtain ⟨rfl, rfl, rfl⟩ := heq
      exact .inr (.inr ((hagrees hl).but (by simp [hjoins])))
    · exact (h.member r g k hl).imp (⟨·, heq⟩) fun h => .inr (h.but (by simp [hjoins]))
  · rw [hsame, ← lists_eq]
    by_cases hr : (r, g, k) ∈ (W.pc t).removes
    · rcases hremoves _ hr with heq | hr
      · exact absurd (by simpa using heq) hm.2
      · exact .inr (.inl hr)
    · exact (h.listed r g k hm.1).imp id fun h => .inr (h.but hr)

/-- The join puts its member into the group. -/
theorem Inv.insert (h : W.Inv M) (W₁ : World τ π) (hpcs : W₁.pc = W.pc)
    (hpc : W.pc t = .groupJoin rid gid key) (hrd : ∀ u ≠ t, ∀ i, u ∈ W.roomRd i → u ∈ W₁.roomRd i)
    (hagrees : W.lists rid key = some gid ∨ W.Removing rid gid key) (ret : Int) :
    (W₁.goto t (W.tab.groupJoin rid gid key) (.idle ret)).Inv
      fun r g k => M r g k ∨ r = rid ∧ g = gid ∧ k = key := by
  have hsame := (groupJoin_same W.tab rid gid key).1
  have hat := h.threads t
  rw [hpc] at hat
  refine h.goto hpcs (h.holds.groupJoin key hat.2) (fun r g k hl => ?_) (fun r g k hm => ?_) trivial hrd
    fun _ _ r _ => Stays.groupJoin W.tab rid gid key r
  · rw [hsame, ← lists_eq] at hl
    by_cases heq : r = rid ∧ g = gid ∧ k = key
    · exact .inl (.inr heq)
    · refine (h.member r g k hl).imp .inl fun h => .inr (h.but fun hj => heq ?_)
      simpa [hpc, Pc.joins, eq_comm] using hj
  · rw [hsame, ← lists_eq]
    have hnr (x : Rid × Gid × ChatSessionKey) : x ∉ (W.pc t).removes := by simp [hpc, Pc.removes]
    rcases hm with hm | ⟨rfl, rfl, rfl⟩
    · exact (h.listed r g k hm).imp id fun h => .inr (h.but (hnr _))
    · exact hagrees.imp id fun h => .inr (h.but (hnr _))

/-- A section on sessions, which leaves the rooms alone. -/
theorem Inv.session (h : W.Inv M) {tab : ChatTab π} (hrooms : tab.rooms = W.tab.rooms)
    (hjoins : (W.pc t).joins = none) (hremoves : (W.pc t).removes = [])
    (hmember : ∀ rid gid key, (view tab.sessions).lists key rid = some gid →
      W.lists rid key = some gid ∨ pc.joins = some (rid, gid, key))
    (hlisted : ∀ rid gid key, W.lists rid key = some gid →
      (view tab.sessions).lists key rid = some gid ∨ (rid, gid, key) ∈ pc.removes)
    (hat : ∀ W₁ : World τ π, W₁.At t pc) : (W.goto t tab pc).Inv M := by
  refine h.goto rfl (by rw [hrooms]; exact h.holds) (fun rid gid key hl => ?_) (fun rid gid key hm => ?_) (hat _)
    (fun _ _ _ hu => hu) fun _ _ rid _ => Stays.of_rooms hrooms rid
  · rcases hmember rid gid key hl with hl | hj
    · exact (h.member rid gid key hl).imp id fun h => .inr (h.but (by simp [hjoins]))
    · exact .inr (.inl hj)
  · rcases h.listed rid gid key hm with hl | hr
    · exact (hlisted rid gid key hl).imp id .inl
    · exact .inr (.inr (hr.but (by simp [hremoves])))

theorem Inv.call {a : Act} (h : W.Inv M) (hidle : ∃ ret, W.pc t = .idle ret) (hcall : W.call t a = some W') :
    W'.Inv M := by
  obtain ⟨ret₀, hpc⟩ := hidle
  have hjoins : (W.pc t).joins = none := by rw [hpc]; rfl
  have hremoves : (W.pc t).removes = [] := by rw [hpc]; rfl
  cases a with
  | join rid gid sid cid =>
    obtain ⟨hview, hret⟩ := sessionJoinRoom_spec W.tab rid gid sid cid
    have hrooms := (sessionJoinRoom_frame W.tab rid gid sid cid).1
    simp only [World.call] at hcall
    rcases htab : W.tab.sessionJoinRoom rid gid sid cid with ⟨tab, ret⟩
    rw [htab] at hview hret hrooms hcall
    cases hcall
    rcases hret with ⟨rfl, hlists⟩ | ⟨rfl, rfl⟩
    · rw [hview] at hlists
      refine h.session hrooms hjoins hremoves (fun r g k hl => ?_) (fun r g k hl => .inl ?_) fun _ => trivial
      · rw [hview, Membership.lists_join_iff hlists, ← lists_eq] at hl
        refine hl.imp id fun heq => ?_
        simp [Pc.joins, heq]
      · rw [hview, Membership.lists_join_iff hlists, ← lists_eq]
        exact .inl hl
    · exact h.session rfl hjoins hremoves (fun r g k hl => .inl (lists_eq.trans hl))
        (fun r g k hl => .inl (lists_eq.symm.trans hl)) fun _ => trivial
  | quit rid sid cid =>
    obtain ⟨hview, hgid⟩ := sessionQuitRoom_spec W.tab rid sid cid
    have hrooms := (sessionQuitRoom_frame W.tab rid sid cid).1
    simp only [World.call] at hcall
    rcases htab : W.tab.sessionQuitRoom rid sid cid with ⟨tab, gid⟩
    rw [htab] at hview hgid hrooms hcall
    cases gid with
    | none =>
      cases hcall
      rw [Membership.quit_of_not_lists hgid.symm] at hview
      refine h.session hrooms hjoins hremoves (fun r g k hl => .inl ?_) (fun r g k hl => .inl ?_) fun _ => trivial
      · rwa [lists_eq, ← hview]
      · rwa [hview, ← lists_eq]
    | some gid =>
      cases hcall
      refine h.session hrooms hjoins hremoves (fun r g k hl => .inl ?_) (fun r g k hl => ?_) fun _ => trivial
      · rw [hview, Membership.lists_quit_iff hgid.symm, ← lists_eq] at hl
        exact hl.1
      · rw [hview, Membership.lists_quit_iff hgid.symm, ← lists_eq]
        by_cases heq : r = rid ∧ g = gid ∧ k = (sid, cid)
        · exact .inr (by simp [Pc.removes, heq])
        · exact .inl ⟨hl, heq⟩
  | del sid cid order =>
    cases hcall
    have hsame : (W.tab.sid2cidDel sid cid).rooms = W.tab.rooms ∧
        (W.tab.sid2cidDel sid cid).sessions = W.tab.sessions := by
      unfold ChatTab.sid2cidDel
      split
      · exact ⟨rfl, rfl⟩
      · split <;> exact ⟨rfl, rfl⟩
    exact h.quiet rfl hsame.2 (by rw [hsame.1]; exact h.holds) hjoins.symm hremoves.symm trivial
      (fun _ _ _ hu => hu) fun _ _ rid _ => Stays.of_rooms hsame.1 rid
  | clean order =>
    cases hcall
    exact h.quiet rfl rfl h.holds hjoins.symm hremoves.symm trivial (fun _ _ _ hu => hu) fun _ _ rid _ => .refl _ rid
  | go => cases hcall

theorem Inv.go (h : W.Inv M) (hgo : W.go t = some W') (hagrees : W.Agrees t) : ∃ M', W'.Inv M' := by
  have hat := h.threads t
  unfold World.go at hgo
  unfold World.Agrees at hagrees
  cases hpc : W.pc t with
  | idle ret => simp [hpc] at hgo
  | roomAdd rid gid key =>
    simp only [hpc, Option.ite_none_right_eq_some, Option.some.injEq] at hgo
    obtain ⟨-, rfl⟩ := hgo
    exact ⟨M, h.quiet rfl (roomAdd_same W.tab rid).1 (h.holds.roomAdd rid) (by rw [hpc]; rfl) (by rw [hpc]; rfl) trivial
      (fun _ _ _ hu => hu) fun _ _ r _ => Stays.roomAdd W.tab rid r⟩
  | roomQuery rid gid key =>
    simp only [hpc] at hgo
    split at hgo
    · cases hgo
      exact ⟨M, h.quiet rfl rfl h.holds (by rw [hpc]; rfl) (by rw [hpc]; rfl) trivial (fun _ _ _ hu => hu)
        fun _ _ r _ => .refl _ r⟩
    · rename_i room hroom
      cases hgo
      refine ⟨M, h.quiet rfl rfl h.holds (by rw [hpc]; rfl) (by rw [hpc]; rfl) ⟨?_, ?_⟩ (fun u _ i hu => ?_)
        fun _ _ r _ => .refl _ r⟩
      · simp [World.goto, World.onRoom]
      · exact Option.isSome_of_eq_some hroom
      · simp only [World.onRoom, Function.update_apply]
        split
        · rename_i heq
          exact Finset.mem_insert_of_mem (heq ▸ hu)
        · exact hu
  | groupAdd rid gid key =>
    rw [hpc] at hat
    simp only [hpc, Option.ite_none_right_eq_some, Option.some.injEq] at hgo
    obtain ⟨-, rfl⟩ := hgo
    exact ⟨M, h.quiet rfl (groupAdd_same W.tab rid gid).1 (h.holds.groupAdd rid gid) (by rw [hpc]; rfl)
      (by rw [hpc]; rfl) ⟨hat.1, (Stays.groupAdd W.tab rid gid rid).room hat.2⟩ (fun _ _ _ hu => hu)
      fun _ _ r _ => Stays.groupAdd W.tab rid gid r⟩
  | groupQuery rid gid key =>
    rw [hpc] at hat
    simp only [hpc] at hgo
    split at hgo
    · cases hgo
      exact ⟨M, h.quiet rfl rfl h.holds (by rw [hpc]; rfl) (by rw [hpc]; rfl) hat (fun _ _ _ hu => hu)
        fun _ _ r _ => .refl _ r⟩
    · rename_i group hgroup
      cases hgo
      exact ⟨M, h.quiet rfl rfl h.holds (by rw [hpc]; rfl) (by rw [hpc]; rfl)
        ⟨hat.1, Option.isSome_of_eq_some hgroup⟩ (fun _ _ _ hu => hu) fun _ _ r _ => .refl _ r⟩
  | groupJoin rid gid key =>
    simp only [hpc, Option.some.injEq] at hgo hagrees
    subst hgo
    refine ⟨_, h.insert ((W.onGroup rid gid (·.erase t)).onRoom rid (·.erase t)) rfl hpc
      (fun u hne i hu => ?_) hagrees 0⟩
    simp only [World.onRoom, World.onGroup, Function.update_apply]
    split
    · rename_i heq
      exact Finset.mem_erase_of_ne_of_mem hne (heq ▸ hu)
    · exact hu
  | quitRoom rid gid key =>
    simp only [hpc, Option.some.injEq] at hgo hagrees
    subst hgo
    exact ⟨_, h.remove (by rw [hpc]; rfl) (fun x hx => .inl (by simpa [hpc, Pc.removes] using hx)) (fun _ => trivial)
      hagrees⟩
  | sessionDel key order =>
    obtain ⟨hview, hssn⟩ := sessionTake_spec W.tab key.1 key.2
    have hrooms := (sessionTake_frame W.tab key.1 key.2).1
    simp only [hpc] at hgo
    rcases htab : W.tab.sessionTake key.1 key.2 with ⟨tab, ssn⟩
    rw [htab] at hview hssn hrooms hgo
    have hjoins : (W.pc t).joins = none := by rw [hpc]; rfl
    have hremoves : (W.pc t).removes = [] := by rw [hpc]; rfl
    have hmember : ∀ r g k, (view tab.sessions).lists k r = some g → W.lists r k = some g := by
      intro r g k hl
      rw [hview, Membership.lists_del] at hl
      split at hl
      · cases hl
      · exact lists_eq.trans hl
    cases ssn with
    | none =>
      cases hgo
      refine ⟨M, h.session hrooms hjoins hremoves (fun r g k hl => .inl (hmember r g k hl)) (fun r g k hl => .inl ?_)
        fun _ => trivial⟩
      rw [hview, Membership.lists_del, ← lists_eq, hl, if_neg]
      rintro rfl
      exact absurd ((hssn r g).mpr (lists_eq.symm.trans hl)) (by simp)
    | some ssn =>
      cases hgo
      refine ⟨M, h.session hrooms hjoins hremoves (fun r g k hl => .inl (hmember r g k hl)) (fun r g k hl => ?_)
        fun _ => trivial⟩
      by_cases hk : k = key
      · obtain ⟨ssn', hsome, hmem⟩ := (hssn r g).mpr (by rw [← hl, lists_eq, hk])
        obtain rfl := Option.some.inj hsome
        refine .inr (List.mem_map.mpr ⟨(r, g), (ranged_perm order ssn.rooms).mem_iff.mpr hmem, ?_⟩)
        rw [hk]
      · refine .inl ?_
        rw [hview, Membership.lists_del, if_neg hk, ← lists_eq, hl]
  | delRooms key rest =>
    cases rest with
    | nil =>
      simp only [hpc, Option.some.injEq] at hgo
      subst hgo
      exact ⟨M, h.quiet rfl rfl h.holds (by rw [hpc]; rfl) (by rw [hpc]; rfl) trivial (fun _ _ _ hu => hu)
        fun _ _ r _ => .refl _ r⟩
    | cons e rest =>
      obtain ⟨rid, gid⟩ := e
      simp only [hpc, Option.some.injEq] at hgo hagrees
      subst hgo
      refine ⟨_, h.remove (by rw [hpc]; rfl) (fun x hx => ?_) (fun _ => trivial) hagrees⟩
      simpa [hpc, Pc.removes] using hx
  | cleanScan i rlist order =>
    simp only [hpc] at hgo
    split at hgo <;> cases hgo <;>
      exact ⟨M, h.quiet rfl rfl h.holds (by rw [hpc]; rfl) (by rw [hpc]; rfl) trivial (fun _ _ _ hu => hu)
        fun _ _ r _ => .refl _ r⟩
  | cleanRooms rest =>
    cases rest with
    | nil =>
      simp only [hpc, Option.some.injEq] at hgo
      subst hgo
      exact ⟨M, h.quiet rfl rfl h.holds (by rw [hpc]; rfl) (by rw [hpc]; rfl) trivial (fun _ _ _ hu => hu)
        fun _ _ r _ => .refl _ r⟩
    | cons rid rest =>
      simp only [hpc, Option.ite_none_right_eq_some, Option.some.injEq] at hgo
      obtain ⟨hnone, rfl⟩ := hgo
      refine ⟨M, h.quiet rfl (roomClean_same W.tab rid).1 (h.holds.roomClean rid) (by rw [hpc]; rfl) (by rw [hpc]; rfl)
        trivial (fun _ _ _ hu => hu) fun u _ r hu => Stays.roomClean W.tab ?_⟩
      rintro rfl
      simp [hnone] at hu

theorem Inv.step {o : τ × Act} (h : W.Inv M) (hstep : W.step o = some W') (hagrees : o.2 = .go → W.Agrees o.1) :
    ∃ M', W'.Inv M' := by
  obtain ⟨t, a⟩ := o
  unfold World.step at hstep
  split at hstep
  · exact h.go hstep (hagrees ‹_›)
  · exact ⟨M, h.call ⟨_, ‹_›⟩ hstep⟩
  · cases hstep

/-! ## Runs -/

/-- What is asked of a table when nobody is in a call. -/
structure NoGhost (tab : ChatTab π) : Prop where
  listed : ∀ rid room gid group sid cid, tab.rooms.get rid = some room → room.groups.get gid = some group →
    (sid, cid) ∈ group.sidList → ∃ ssn, tab.sessions.get (sid, cid) = some ssn ∧ ssn.room.lookup rid = some gid
  member : ∀ sid cid ssn rid gid, tab.sessions.get (sid, cid) = some ssn → ssn.room.lookup rid = some gid →
    ∃ room group, tab.rooms.get rid = some room ∧ room.groups.get gid = some group ∧ (sid, cid) ∈ group.sidList

omit [DecidableEq τ] in
theorem Inv.noGhost (h : W.Inv M) (hidle : W.Idle) : NoGhost W.tab := by
  refine ⟨fun rid room gid group sid cid hroom hgroup hk => ?_, fun sid cid ssn rid gid hssn hl => ?_⟩
  · rcases h.listed rid gid (sid, cid) (h.holds.mem.mpr ⟨room, group, hroom, hgroup, hk⟩) with hl | ⟨t, ht⟩
    · exact Option.bind_eq_some_iff.mp hl
    · obtain ⟨ret, hpc⟩ := hidle t
      simp [hpc, Pc.removes] at ht
  · rcases h.member rid gid (sid, cid) (Option.bind_eq_some_iff.mpr ⟨ssn, hssn, hl⟩) with hm | ⟨t, ht⟩
    · exact h.holds.mem.mp hm
    · obtain ⟨ret, hpc⟩ := hidle t
      simp [hpc, Pc.joins] at ht

end World

/-- When the halves of all calls agree with the sessions, there is no ghost member
once all have returned. -/
theorem race_no_ghost {τ π : Type} [DecidableEq τ] (ops : List (τ × Act))
    (h : Guarded (fun W o => (World.step W o).getD W) World.Allowed (World.init τ π) ops) :
    ∃ W, ops.foldlM World.step (World.init τ π) = some W ∧ (W.Idle → World.NoGhost W.tab) := by
  obtain ⟨W, hrun, M, hM⟩ := run_invariant World.step World.Allowed (fun W => ∃ M, W.Inv M)
    (fun W o ⟨M, hM⟩ ho => by
      obtain ⟨W', hstep⟩ := Option.isSome_iff_exists.mp ho.1
      exact ⟨W', hstep, hM.step hstep ho.2⟩)
    ops _ ⟨_, World.init_inv⟩ h
  exact ⟨W, hrun, hM.noGhost⟩

/-- A session joins two rooms at once, quits one and is deleted while another joins. -/
theorem race_no_ghost_two :
    ∃ W, [(false, .join 1 0 5 6), (true, .join 2 7 5 6), (false, .go), (true, .go), (false, .go), (true, .go),
        (false, .go), (true, .go), (false, .go), (true, .go), (true, .go), (false, .go), (true, .quit 2 5 6),
        (false, .join 1 3 8 9), (true, .go), (true, .del 5 6 []), (false, .go), (true, .go), (true, .go), (false, .go),
        (false, .go), (true, .go), (false, .go), (false, .go)].foldlM World.step (World.init Bool Unit) = some W ∧
      (W.Idle → World.NoGhost W.tab) :=
  race_no_ghost _ (by decide)

/-- A deletion between the halves of a join: the group keeps a session that is gone. -/
theorem race_join_deleted : ¬∀ (ops : List (Bool × Act)) (W : World Bool Unit),
    ops.foldlM World.step (World.init Bool Unit) = some W → W.Idle → World.NoGhost W.tab := by
  intro h
  let ops : List (Bool × Act) := [(false, .join 1 0 5 6), (true, .del 5 6 []), (true, .go), (true, .go), (true, .go),
    (false, .go), (false, .go), (false, .go), (false, .go), (false, .go)]
  have hsome : (ops.foldlM World.step (World.init Bool Unit)).isSome := by decide
  obtain ⟨W, hW⟩ := Option.isSome_iff_exists.mp hsome
  have hidle : (ops.foldlM World.step (World.init Bool Unit)).map (fun W => (W.pc false, W.pc true)) =
      some (.idle 0, .idle 0) := by decide
  have hsession : (ops.foldlM World.step (World.init Bool Unit)).map (fun W => (W.tab.sessions.get (5, 6)).isNone) =
      some true := by decide
  have hmember : (ops.foldlM World.step (World.init Bool Unit)).map (fun W =>
      (W.tab.groupQuery 1 0).map fun group => decide ((5, 6) ∈ group.sidList)) = some (some true) := by
    decide
  simp only [hW, Option.map_some, Option.some.injEq, Prod.mk.injEq] at hidle hsession hmember
  obtain ⟨group, hgroup, hk⟩ := Option.map_eq_some_iff.mp hmember
  obtain ⟨room, hroom, hgroup⟩ := Option.bind_eq_some_iff.mp hgroup
  have hall : W.Idle := fun t => by
    cases t
    · exact ⟨0, hidle.1⟩
    · exact ⟨0, hidle.2⟩
  obtain ⟨ssn, hssn, -⟩ := (h ops W hW hall).listed 1 room 0 group 5 6 hroom hgroup (of_decide_eq_true hk)
  rw [hssn] at hsession
  cases hsession

end BeehiveIm.GoChat

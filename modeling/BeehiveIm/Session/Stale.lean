/-
Clean-ups and the logins they delete, over every interleaving. A clean-up that reads the
attributes is for the login it has read; what goes wrong is that another login comes between
that and its `DEL`. As long as none does, every login is deleted on behalf of its own
connection or of its own score.
-/
import BeehiveIm.Session.Race

namespace BeehiveIm.Session

open BeehiveIm.Lib

/-- A clean-up may delete these attributes, that came with this score. -/
def Cause.Suits (attr : SidAttr) (login : Nat) : Cause → Prop
  | .conn cid nid => attr.cid = cid ∧ attr.nid = nid
  | .sweep score => login ≤ score

instance (attr : SidAttr) (login : Nat) : ∀ cause : Cause, Decidable (cause.Suits attr login)
  | .conn .. => inferInstanceAs (Decidable (_ ∧ _))
  | .sweep .. => inferInstanceAs (Decidable (_ ≤ _))

/-- The attributes that are yet to be deleted without another look at them. -/
def Next.doomed : Next → List (BitVec 64 × Cause)
  | .sweep _ _ _ rest => rest.map fun e => (e.1, .sweep e.2)
  | _ => []

def Pc.doomed : Pc → List (BitVec 64 × Cause)
  | .clean _ _ _ next | .zrem _ next => next.doomed
  | .del sid cause next => (sid, cause) :: next.doomed
  | _ => []

/-- The login that is yet to be made, and the number of its score. -/
def Pc.pending : Pc → Option (BitVec 64 × Nat)
  | .zaddUid _ req _ score | .hmset _ req score => some (req.sid, score)
  | _ => none

@[simp] theorem Next.doomed_pc (next : Next) : next.pc.doomed = next.doomed := by
  cases next with
  | done => rfl
  | online head req now seq => cases seq <;> rfl
  | sweep ctm off full rest =>
    cases rest with
    | nil => cases full <;> rfl
    | cons e rest => rfl

@[simp] theorem Next.pending_pc (next : Next) : next.pc.pending = none := by
  cases next with
  | done => rfl
  | online head req now seq => cases seq <;> rfl
  | sweep ctm off full rest =>
    cases rest with
    | nil => cases full <;> rfl
    | cons e rest => rfl

namespace World

variable {τ : Type} {W W' : World τ} {t : τ}

/-- What may be deleted from a session at the moment is what its clean-ups are for. -/
def Fits (W : World τ) (d : BitVec 64 × Cause) : Prop := ∀ attr ∈ W.store.attr d.1, d.2.Suits attr (W.login d.1)

instance (W : World τ) (d : BitVec 64 × Cause) : Decidable (W.Fits d) := inferInstanceAs (Decidable (∀ attr ∈ _, _))

/-- No login comes in while a clean-up for another connection or an earlier score is about to delete
it. A clean-up that compares the connections, or goes by the score of an id, has the one it reads
before it, where numbers of `2 ^ 63` and more read as the same. -/
def Timely (W : World τ) (o : τ × Act) : Prop :=
  match o.2, W.pc o.1 with
  | .go, .hmset head req score =>
    ∀ t, ∀ d ∈ (W.pc t).doomed, d.1 = req.sid → d.2.Suits ⟨head.cid, req.uid, head.nid⟩ score
  | .go, .clean sid cid nid _ =>
    ∀ attr ∈ W.store.attr sid, parseInt attr.cid = cid → attr.nid = nid → attr.cid = cid
  | .go, .page ctm off => ∀ e ∈ Store.expiredPage W.store.sidZset ctm off,
    parseInt e.1 ≠ e.1 → W.Fits (parseInt e.1, .sweep (W.added e.1))
  | _, _ => True

instance [Fintype τ] (W : World τ) : ∀ o, Decidable (W.Timely o) := fun o => by
  unfold Timely
  split <;> infer_instance

structure Inv (W : World τ) : Prop where
  fits : ∀ t, ∀ d ∈ (W.pc t).doomed, W.Fits d
  pending : ∀ t, ∀ e ∈ (W.pc t).pending, e.2 ≤ W.added e.1
  login_le : ∀ sid, W.login sid ≤ W.added sid
  added_le : ∀ sid, W.added sid ≤ W.clock

theorem init_inv : (init τ).Inv where
  fits _ _ h := absurd h List.not_mem_nil
  pending _ _ h := nomatch h
  login_le _ := le_rfl
  added_le _ := le_rfl

theorem Inv.zadd (h : W.Inv) (ttl : Int) (sid : BitVec 64) : (W.zadd ttl sid).Inv := by
  have hle (sid' : BitVec 64) : W.added sid' ≤ Function.update W.added sid (W.clock + 1) sid' := by
    rw [Function.update_apply]
    split
    · exact (h.added_le sid').trans (Nat.le_succ _)
    · exact le_rfl
  constructor
  · exact h.fits
  · exact fun t e he => (h.pending t e he).trans (hle e.1)
  · exact fun sid' => (h.login_le sid').trans (hle sid')
  · intro sid'
    simp only [World.zadd, Function.update_apply]
    split
    · exact le_rfl
    · exact (h.added_le sid').trans (Nat.le_succ _)

/-- A change of the store that brings no attributes. -/
theorem Inv.store (h : W.Inv) {store : Store}
    (hattr : ∀ sid attr, store.attr sid = some attr → W.store.attr sid = some attr) :
    ({ W with store := store } : World τ).Inv where
  fits t d hd attr ha := h.fits t d hd attr (hattr _ _ ha)
  pending := h.pending
  login_le := h.login_le
  added_le := h.added_le

theorem Inv.zaddUid (h : W.Inv) (ttl : Int) (uid : BitVec 64) : (W.zaddUid ttl uid).Inv := h.store fun _ _ ha => ha

theorem Inv.sadd (h : W.Inv) (uid sid : BitVec 64) : (W.sadd uid sid).Inv := h.store fun _ _ ha => ha

theorem Inv.zrem (h : W.Inv) (sid : BitVec 64) : (W.zrem sid).Inv := h.store fun _ _ ha => ha

theorem del_attr {sid sid' : BitVec 64} {attr : SidAttr} (h : (W.del sid).store.attr sid' = some attr) :
    W.store.attr sid' = some attr := by
  simp only [World.del, Function.update_apply] at h
  split at h
  · cases h
  · exact h

theorem Inv.del (h : W.Inv) (sid : BitVec 64) : (W.del sid).Inv := h.store fun _ _ => del_attr

theorem Inv.hmset (h : W.Inv) {sid : BitVec 64} {attr : SidAttr} {score : Nat} (hscore : score ≤ W.added sid)
    (hfits : ∀ t, ∀ d ∈ (W.pc t).doomed, d.1 = sid → d.2.Suits attr score) : (W.hmset sid attr score).Inv where
  fits t d hd attr' hattr' := by
    simp only [World.hmset, Function.update_apply] at hattr' ⊢
    split at hattr'
    · rename_i heq
      rw [if_pos heq, ← Option.some.inj hattr']
      exact hfits t d hd heq
    · rename_i hne
      rw [if_neg hne]
      exact h.fits t d hd attr' hattr'
  pending := h.pending
  login_le sid' := by
    simp only [World.hmset, Function.update_apply]
    split
    · rename_i heq
      rwa [heq]
    · exact h.login_le sid'
  added_le := h.added_le

variable [DecidableEq τ]

theorem goto_pc_self (W : World τ) (t : τ) (pc : Pc) : (W.goto t pc).pc t = pc := Function.update_self ..

theorem goto_pc_of_ne {t' : τ} (h : t' ≠ t) (pc : Pc) : (W.goto t pc).pc t' = W.pc t' := Function.update_of_ne h ..

/-- A client goes on, with nothing to delete but what fits, and no login to make but under its
score. -/
theorem Inv.goto (h : W.Inv) (t : τ) {pc : Pc} (hfits : ∀ d ∈ pc.doomed, W.Fits d)
    (hpending : ∀ e ∈ pc.pending, e.2 ≤ W.added e.1) : (W.goto t pc).Inv where
  fits t' := by
    rcases eq_or_ne t' t with rfl | hne
    · rw [goto_pc_self]
      exact hfits
    · rw [goto_pc_of_ne hne]
      exact h.fits t'
  pending t' := by
    rcases eq_or_ne t' t with rfl | hne
    · rw [goto_pc_self]
      exact hpending
    · rw [goto_pc_of_ne hne]
      exact h.pending t'
  login_le := h.login_le
  added_le := h.added_le

/-- A client goes on, with nothing to delete and no login to make. -/
theorem Inv.goto_bare (h : W.Inv) (t : τ) {pc : Pc} (hdoomed : pc.doomed = []) (hpending : pc.pending = none) :
    (W.goto t pc).Inv :=
  h.goto t (by simp [hdoomed]) (by simp [hpending])

theorem go_inv (h : W.Inv) (hok : W.Timely (t, .go)) (hgo : W.go t = some W') : W'.Inv := by
  unfold go at hgo
  unfold Timely at hok
  have hmine := h.fits t
  have hpending := h.pending t
  generalize W.pc t = pc at hgo hok hmine hpending
  cases pc with
  | idle => cases hgo
  | online head req now seq =>
    simp only at hgo
    split at hgo <;> cases hgo
    · exact h.goto_bare t rfl rfl
    · exact h.goto_bare t (Next.doomed_pc _) (Next.pending_pc _)
  | zaddSid head req now =>
    cases hgo
    refine (h.zadd _ req.sid).goto t (fun _ hd => absurd hd List.not_mem_nil) fun e he => ?_
    cases he
    exact (Function.update_self (f := W.added) ..).ge
  | zaddUid head req now score =>
    cases hgo
    exact (h.zaddUid _ req.uid).goto t (fun _ hd => absurd hd List.not_mem_nil) hpending
  | hmset head req score =>
    cases hgo
    exact (h.hmset (hpending (req.sid, score) rfl) hok).goto_bare t rfl rfl
  | sadd req =>
    cases hgo
    exact (h.sadd req.uid req.sid).goto_bare t rfl rfl
  | ping head now =>
    simp only at hgo
    split at hgo <;> cases hgo
    · exact h.goto_bare t rfl rfl
    · exact h.goto_bare t rfl rfl
  | pingSid sid uid now =>
    cases hgo
    exact (h.zadd _ sid).goto_bare t rfl rfl
  | pingUid uid now =>
    cases hgo
    exact (h.zaddUid _ uid).goto_bare t rfl rfl
  | clean sid cid nid next =>
    cases hgo
    split
    · refine h.goto t (fun d hd => ?_) (by simp)
      rw [Next.doomed_pc] at hd
      exact hmine d hd
    · rename_i hmatch
      rw [not_or, not_not, not_not] at hmatch
      refine h.goto t (fun d hd => ?_) (fun _ he => nomatch he)
      rcases List.mem_cons.1 hd with rfl | hd
      · -- the attributes it has compared
        intro attr hattr
        rw [Store.getSidAttr, hattr] at hmatch
        exact ⟨hok attr hattr hmatch.1 hmatch.2, hmatch.2⟩
      · exact hmine d hd
  | del sid cause next =>
    cases hgo
    refine (h.del sid).goto t (fun d hd attr hattr => ?_) (fun _ he => nomatch he)
    exact hmine d (List.mem_cons_of_mem _ hd) attr (del_attr hattr)
  | zrem sid next =>
    cases hgo
    refine (h.zrem sid).goto t (fun d hd => ?_) (by simp)
    rw [Next.doomed_pc] at hd
    exact hmine d hd
  | page ctm off =>
    cases hgo
    refine h.goto t (fun d hd => ?_) (by simp)
    rw [Next.doomed_pc, Next.doomed, expired, List.map_map, List.mem_map] at hd
    obtain ⟨e, he, rfl⟩ := hd
    by_cases hread : parseInt e.1 = e.1
    · intro attr _
      simp only [Function.comp_apply, hread]
      exact h.login_le e.1
    · exact hok e he hread

theorem step_inv {o : τ × Act} (h : W.Inv) (hok : W.Timely o) (hstep : W.step o = some W') : W'.Inv := by
  obtain ⟨t, a⟩ := o
  unfold step at hstep
  split at hstep
  · rename_i ha
    obtain rfl : a = .go := ha
    exact go_inv h hok hstep
  · cases hstep
    refine h.goto_bare t ?_ ?_
    all_goals cases a <;> rfl
  · cases hstep

/-- The only command that deletes attributes is the `DEL` of a clean-up. -/
theorem go_del {sid : BitVec 64} {attr : SidAttr} (hgo : W.go t = some W') (hattr : W.store.attr sid = some attr)
    (hnone : W'.store.attr sid = none) : ∃ cause next, W.pc t = .del sid cause next := by
  have hne : W'.store.attr sid ≠ W.store.attr sid := by
    rw [hattr, hnone]
    nofun
  unfold go at hgo
  cases hpc : W.pc t with
  | del sid' cause next =>
    rw [hpc] at hgo
    cases hgo
    by_cases hsid : sid = sid'
    · exact ⟨cause, next, by rw [hsid]⟩
    · exact absurd (Function.update_of_ne hsid ..) hne
  | hmset head req score =>
    rw [hpc] at hgo
    cases hgo
    by_cases hsid : sid = req.sid
    · -- what it writes is there
      have hset : Function.update W.store.attr req.sid (some ⟨head.cid, req.uid, head.nid⟩) sid = none := hnone
      rw [hsid, Function.update_self] at hset
      cases hset
    · exact absurd (Function.update_of_ne hsid ..) hne
  | online head req now seq =>
    simp only [hpc] at hgo
    split at hgo <;> cases hgo <;> exact absurd rfl hne
  | ping head now =>
    simp only [hpc] at hgo
    split at hgo <;> cases hgo <;> exact absurd rfl hne
  | idle => rw [hpc] at hgo; cases hgo
  | _ => rw [hpc] at hgo; cases hgo; exact absurd rfl hne

theorem step_del {o : τ × Act} {sid : BitVec 64} {attr : SidAttr} (hstep : W.step o = some W')
    (hattr : W.store.attr sid = some attr) (hnone : W'.store.attr sid = none) :
    ∃ cause next, W.pc o.1 = .del sid cause next := by
  unfold step at hstep
  split at hstep
  · exact go_del hstep hattr hnone
  · cases hstep
    exact absurd (hattr.symm.trans hnone) nofun
  · cases hstep

/-- What a step that deletes attributes is to be: part of a clean-up for the connection of the
login, or by a score that is no older. -/
def Rightful (W : World τ) (t : τ) (W' : World τ) : Prop :=
  ∀ sid attr, W.store.attr sid = some attr → W'.store.attr sid = none →
    ∃ cause next, W.pc t = .del sid cause next ∧ cause.Suits attr (W.login sid)

/-- A step as far as it is possible -/
def next (W : World τ) (o : τ × Act) : World τ := (W.step o).getD W

theorem run_inv (ops : List (τ × Act)) : ∀ {W W' : World τ}, W.Inv → Guarded next Timely W ops →
    ops.foldlM step W = some W' → W'.Inv := by
  induction ops with
  | nil =>
    intro W W' h _ hrun
    cases hrun
    exact h
  | cons o ops ih =>
    intro W W' h hops hrun
    rw [List.foldlM_cons, Option.bind_eq_bind, Option.bind_eq_some_iff] at hrun
    obtain ⟨W₁, hstep, hrun⟩ := hrun
    have hrest : Guarded next Timely W₁ ops := by simpa [next, hstep] using hops.2
    exact ih (step_inv h hops.1 hstep) hrest hrun

/-- No clean-up deletes the login of another connection, or a newer one. -/
theorem cleanup_rightful (ops : List (τ × Act)) (o : τ × Act) (W W' : World τ) (hops : Guarded next Timely (init τ) ops)
    (hrun : ops.foldlM step (init τ) = some W) (hstep : W.step o = some W') : W.Rightful o.1 W' := by
  intro sid attr hattr hnone
  obtain ⟨cause, next, hpc⟩ := step_del hstep hattr hnone
  refine ⟨cause, next, hpc, ?_⟩
  have hdoomed : (sid, cause) ∈ (W.pc o.1).doomed := by
    rw [hpc]
    exact List.mem_cons_self
  exact (run_inv ops init_inv hops hrun).fits o.1 (sid, cause) hdoomed attr hattr

/-- The session 9 of the user 7 goes online on connection 5 of node 1, and offline up to the
`DEL`. -/
def offlineRun : List (Bool × Act) :=
  (true, .online ⟨5, 5, 1⟩ ⟨7, 9⟩ 0 true) :: List.replicate 5 (true, .go) ++ [(false, .offline ⟨9, 5, 1⟩), (false, .go)]

/-- The user logs in on another connection up to the `SADD`. -/
def reloginRun : List (Bool × Act) := (true, .online ⟨6, 6, 2⟩ ⟨7, 9⟩ 0 true) :: List.replicate 5 (true, .go)

/-- An OFFLINE alone deletes the login it is for. -/
theorem cleanup_rightful_offline : ∃ W W' : World Bool, Guarded next Timely (init Bool) offlineRun ∧
    offlineRun.foldlM step (init Bool) = some W ∧ W.step (false, .go) = some W' ∧ W.Rightful false W' := by
  have hops : Guarded next Timely (init Bool) offlineRun := by decide
  exact ⟨_, _, hops, rfl, rfl, cleanup_rightful offlineRun (false, .go) _ _ hops rfl rfl⟩

/-- When the new login comes between its two commands, it deletes that. -/
theorem stale_offline_deletes : ¬∀ (ops : List (Bool × Act)) (o : Bool × Act) (W W' : World Bool),
    ops.foldlM step (init Bool) = some W → W.step o = some W' → W.Rightful o.1 W' := by
  intro h
  obtain ⟨cause, next, hpc, hsuits⟩ := h (offlineRun ++ reloginRun) (false, .go) _ _ rfl rfl 9 ⟨6, 7, 2⟩ rfl rfl
  cases hpc
  exact absurd hsuits (by decide)

end World

end BeehiveIm.Session

import Asg1.Process.ExecInv

/-!
# `Process.Exec` — what `process_execute` returns

`process_execute` finds the thread it created by walking along `all_list`, and then waits on a semaphore inside
that thread's page. All is well in a run in which no thread leaves while some `process_execute` still has to
read its page (`LeavesUnread`): then the call returns the tid exactly if `load` returned true, and no freed page
is read (`exec_load_agreement`). Nothing in the code makes a thread stay that long
(`exec_misses_finished_child`).
-/

namespace Asg1
namespace Process

open Cursor

/-! ## Every step -/

variable {s : State} {p : Addr} {s s' : State} {pc : Pc} {m : Made} {p : Addr}

/-- A quiet change, and then the thread goes to a point that speaks of no child being made. -/
theorem ExecInv.quiet_goto {s₁ : State} (h : ExecInv s) (hquiet : Quiet s s₁) (hp : p ∈ s.allList)
    (hold : (s.thread p).pc.unmarked = false) (hnew : pc.loading = false)
    (hok : ∀ f, PcOk s₁ { s.thread p with pc, tidNodeExists := f }) : ExecInv (s₁.goto p pc) := by
  obtain ⟨f, hf⟩ := hquiet.thread p hp
  refine (h.quiet hquiet).goto (by rw [hquiet.allList]; exact hp) (by rw [hf]; exact hold) hnew ?_
  rw [hf]
  exact hok f

/-- A `process_execute` at its last point knows how `load` ended, and returns it. -/
theorem ExecInv.executeReturn (h : ExecInv s) (hp : p ∈ s.allList)
    (hm : (s.thread p).making = some m) (hpast : ChildPast s m) (hpc : (s.thread p).pc.unmarked = false) {ok : Bool}
    (hok : (s.node m.node).loaded = ok) {nodes : List Addr} (hnodes : nodes.Sublist (s.thread p).held) :
    ExecInv (executeReturn s p m.tid (if ok then m.tid else TID_ERROR) nodes) := by
  have hheld : Thread.held { s.thread p with pc := .user, making := none, childNodes := nodes } = nodes := by
    simp [Thread.held]
  refine ExecInv.emitExec (h.update hp (T := { s.thread p with pc := .user, making := none, childNodes := nodes })
    rfl rfl hpc rfl rfl ?_ ?_ (.inr ⟨rfl, ?_⟩)) _ ok (hok ▸ hpast.load)
  · rw [hheld]
    exact hnodes.subset
  · rw [hheld]
    exact (h.held_nodup p hp).sublist hnodes
  · -- the child is past its `sema_up`
    intro q hq hu b hb
    cases hm.symm.trans hb
    cases (hpast.past hq rfl).symm.trans (loading_of_unmarked hu)

/-- `sema_down(&child->load_sema)` gets through only when the child is past its `sema_up`. -/
theorem ExecInv.downLoad (h : ExecInv s) (hp : p ∈ s.allList)
    (hm : (s.thread p).making = some m) (hc : ChildOk s m) (hpc : (s.thread p).pc.unmarked = false)
    (hsema : (s.thread m.page).loadSema ≠ 0) :
    ExecInv ((s.setThread m.page { s.thread m.page with loadSema := (s.thread m.page).loadSema - 1 }).goto p
      (.checkLoaded m.tid m.node)) := by
  have hnl : (s.thread m.page).pc.loading = false := by grind [h.load_sema, hc.listed]
  have hunm := unmarked_of_not_loading hnl
  have hload : .load m.tid (s.node m.node).loaded ∈ s.log :=
    show LoadOk s.log m.tid (s.node m.node).loaded .user from hc.load.of_marked hunm rfl
  have h₁ := h.update hc.listed (T := { s.thread m.page with loadSema := (s.thread m.page).loadSema - 1 }) rfl rfl
    hunm hnl (h.pc_ok _ hc.listed) (fun _ hb => hb) (h.held_nodup _ hc.listed) (.inl rfl)
  exact h₁.goto hp (by grind) rfl ⟨m, by grind, rfl, ⟨hload, by grind⟩, rfl⟩

theorem Quiet.exitW (p : Addr) (status : Int) : ∃ s₁, Quiet s s₁ ∧ exitW s p status = s₁.goto p .exitStatus := by
  obtain ⟨s₂, heq, hs₂⟩ := exitW_stores s p status
  refine ⟨_, ?_, heq⟩
  have hstore : Quiet s s₂ := by
    have hcall : Quiet s (s.emit (.exitCall (s.thread p).tid status)) := Quiet.emit s rfl
    rcases hs₂ with rfl | ⟨b, -, rfl⟩
    · exact hcall
    · refine (hcall.trans (Quiet.setNode _ ?_)).trans (Quiet.touch _ p _)
      rfl
  split
  · exact hstore.trans (Quiet.emit _ rfl)
  · exact hstore

theorem Quiet.settleStatus (p b : Addr) : ∃ s₁, Quiet s s₁ ∧ settleStatus s p b = s₁.goto p .exitChildren := by
  refine ⟨_, ?_, rfl⟩
  have htouch := Quiet.touch s p b
  split
  · refine (htouch.trans (Quiet.setNode _ ?_)).trans (Quiet.emit _ rfl)
    rw [State.touch_node]
  · exact htouch

theorem ExecInv.making_user (h : ExecInv s) (hat : At s p .user) : (s.thread p).making = none := by
  have hok := h.pc_ok p hat.1
  simpa [PcOk, hat.2] using hok

theorem ExecInv.wait (h : ExecInv s) (hat : At s p .user) (tid : Int) : ExecInv (processWait s p tid) := by
  have hquiet := Quiet.touchNodes s p (searched s (s.thread p).childNodes tid)
  unfold processWait
  simp only
  split
  · exact h.quiet (hquiet.trans (Quiet.emit _ rfl))
  · rename_i b hfind
    split
    · exact h.quiet (hquiet.trans (Quiet.emit _ rfl))
    · exact h.quiet_goto hquiet hat.1 (by rw [hat.2]; rfl) rfl
        (fun f => ⟨h.making_user hat, List.mem_of_find?_eq_some hfind⟩)

/-- A thread gives a child's node back. -/
theorem ExecInv.release (h : ExecInv s) {b : Addr} (hp : p ∈ s.allList)
    (hold : (s.thread p).pc.unmarked = false) (hnew : pc.loading = false) (hmk : (s.thread p).making = none)
    (hb : b ∈ (s.thread p).childNodes) (hok : ∀ T : Thread, T.pc = pc → T.making = none → PcOk (s.touch p b) T) :
    ExecInv (((s.touch p b).setThread p
      { s.thread p with childNodes := (s.thread p).childNodes.erase b, pc }).free b) := by
  have hheld : ∀ U : Thread, U.making = none → U.held = U.childNodes := by simp +contextual [Thread.held]
  have hpheld := hheld _ hmk
  have hnd := hpheld ▸ h.held_nodup p hp
  set T : Thread := { s.thread p with childNodes := (s.thread p).childNodes.erase b, pc } with hT
  have hTheld : T.held = (s.thread p).childNodes.erase b := hheld T hmk
  have h₁ : ExecInv ((s.touch p b).setThread p T) := by
    refine (h.quiet (Quiet.touch s p b)).update (by simpa using hp) (by simp [hT]) (by simp [hT])
      (by simpa using hold) hnew (hok T rfl hmk) ?_ (hTheld ▸ hnd.erase b) (.inl (by simp [hT]))
    intro x hx
    rw [hTheld] at hx
    rw [State.touch_thread, hpheld]
    exact List.mem_of_mem_erase hx
  refine h₁.free ?_
  -- nobody else holds `b`, and `p` does not any more
  intro q hq hbq
  by_cases hqp : q = p
  · rw [hqp, State.setThread_thread, if_pos rfl, hTheld] at hbq
    exact (hnd.mem_erase_iff.mp hbq).1 rfl
  · rw [State.setThread_thread, if_neg hqp, State.touch_thread] at hbq
    exact hqp (h.held_inj q (by simpa using hq) p hp b hbq (mem_held_of_childNodes hb))

/-- One round of the loop over `child_nodes`. -/
theorem ExecInv.releaseChild (h : ExecInv s) {own : Addr} (hp : p ∈ s.allList)
    (hold : (s.thread p).pc.unmarked = false) (hmk : (s.thread p).making = none) : ExecInv (releaseChild s p own) := by
  have hplain : ∀ {s₁ pc'}, Quiet s s₁ → pc'.loading = false →
      (∀ f, PcOk s₁ { s.thread p with pc := pc', tidNodeExists := f }) → ExecInv (s₁.goto p pc') :=
    fun hquiet hnew hok => h.quiet_goto hquiet hp hold hnew hok
  unfold Process.releaseChild
  split
  · exact hplain (Quiet.refl s) rfl (fun f => hmk)
  · rename_i b rest hnodes
    have hmem : b ∈ (s.thread p).childNodes := by rw [hnodes]; exact List.mem_cons_self
    split
    · exact hplain (Quiet.touch s p b) rfl (fun f => ⟨hmk, hmem⟩)
    · have htt : Quiet s ((s.touch p b).touch p own) := (Quiet.touch s p b).trans (Quiet.touch _ p own)
      split
      · exact hplain htt rfl (fun f => hmk)
      · rename_i q _
        have hthread : s.thread q = ((s.touch p b).touch p own).thread q := by simp
        rw [hthread]
        exact hplain (htt.trans (Quiet.setFlag _ q false)) rfl (fun f => ⟨hmk, hmem⟩)

/-- A step inside the kernel. -/
theorem ExecInv.run (h : ExecInv s) (hp : p ∈ s.allList) (hstep : runPc s p (s.thread p).pc = some s')
    (hunread : (s.thread p).pc = .leave → ∀ q ∈ s.allList, (s.thread q).pc.reads p (s.thread p).tid = false) :
    ExecInv s' := by
  have hok := h.pc_ok p hp
  generalize hpc : (s.thread p).pc = pc at hstep hunread
  have hset : ∀ {b : Addr} {N : TidStatus}, N.loaded = (s.node b).loaded → Quiet s ((s.touch p b).setNode b N) :=
    fun hN => (Quiet.touch s p _).trans (Quiet.setNode _ (by rw [State.touch_node]; exact hN))
  -- from here on the thread is past the store to `loaded`
  have hplain : ∀ {s₁ pc'}, Quiet s s₁ → pc.unmarked = false → pc'.loading = false →
      (∀ f, PcOk s₁ { s.thread p with pc := pc', tidNodeExists := f }) → ExecInv (s₁.goto p pc') :=
    fun hquiet hold hnew hok => h.quiet_goto hquiet hp (hpc ▸ hold) hnew hok
  have hgoto : ∀ {pc'}, pc.unmarked = false → pc'.loading = false → PcOk s { s.thread p with pc := pc' } →
      ExecInv (s.goto p pc') := fun hold hnew hok => h.goto hp (hpc ▸ hold) hnew hok
  have hup : ∀ {pc'}, pc.unmarked = false → pc'.loading = false → PcOk s { s.thread p with pc := pc' } →
      ExecInv (s.setThread p { s.thread p with loadSema := (s.thread p).loadSema + 1, pc := pc' }) := by
    intro pc' hold hnew hok
    exact h.update hp rfl rfl (hpc ▸ hold) hnew hok (fun _ hb => hb) (h.held_nodup p hp) (.inl rfl)
  have hran := ran_of_runPc hstep
  cases hran <;> simp only [PcOk, hpc] at hok
  case lost hnode hthrough =>
    have hmarked : pc.unmarked = false := by
      rw [Bool.eq_false_iff]
      intro hu
      obtain ⟨_, _, _, _, hb⟩ := h.made p hp (hpc ▸ hu)
      cases hnode.symm.trans hb
    refine hgoto hmarked rfl ?_
    cases pc <;> first | exact hok | cases hthrough
  case setLoaded ok b hb => exact h.store hp hpc hb
  case loaded ok _ => exact hup rfl rfl hok
  case unloaded ok _ =>
    refine ExecInv.quiet (hup rfl rfl ?_) (Quiet.emit _ rfl)
    exact hok
  case created tid =>
    -- the walk starts
    obtain ⟨m, hm, rfl, hc⟩ := hok
    obtain ⟨e, he, hsees⟩ := sees_head hc.listed
    exact hgoto rfl rfl ⟨m, hm, rfl, hc, e, he, hsees⟩
  case missed tid =>
    obtain ⟨_, _, _, _, _, he, _⟩ := hok
    cases he
  case found tid e htid =>
    obtain ⟨m, hm, rfl, hc, _, he, hsees⟩ := hok
    cases he
    have he : e ∈ s.allList := hsees.elim (fun heq => heq ▸ hc.listed) Before.mem
    rw [State.peek_of_ok s p e he]
    exact hgoto rfl rfl ⟨m, hm, rfl, hc, h.tid_inj e he _ hc.listed (htid.trans hc.tid.symm)⟩
  case passed tid e htid =>
    obtain ⟨m, hm, rfl, hc, _, he, hsees⟩ := hok
    cases he
    have hb := hsees.resolve_left (fun heq => htid (heq ▸ hc.tid))
    rw [State.peek_of_ok s p e hb.mem]
    exact hgoto rfl rfl ⟨m, hm, rfl, hc, hb⟩
  case next tid e he =>
    -- the cursor moves on
    obtain ⟨m, hm, rfl, hc, hb⟩ := hok
    obtain ⟨e', he', hsees⟩ := sees_next h.nodup hb
    rw [State.peek_of_ok s p e he]
    exact hgoto rfl rfl ⟨m, hm, rfl, hc, e', he', hsees⟩
  case strayed tid e he =>
    obtain ⟨m, hm, rfl, hc, hb⟩ := hok
    exact absurd hb.mem he
  case readNode tid c b hb =>
    obtain ⟨m, hm, rfl, hc, rfl⟩ := hok
    rw [hc.tid, beq_self_eq_true, State.peek_of_ok s p _ hc.listed]
    exact hgoto rfl rfl ⟨m, hm, rfl, hc, rfl, Option.some.inj (hb.symm.trans hc.node)⟩
  case noNode tid c hb =>
    obtain ⟨m, hm, rfl, hc, rfl⟩ := hok
    cases hb.symm.trans hc.node
  case downLoad tid c b hsema =>
    obtain ⟨m, hm, rfl, hc, rfl, rfl⟩ := hok
    rw [hc.tid, beq_self_eq_true, State.peek_of_ok s p _ hc.listed]
    exact h.downLoad hp hm hc (by rw [hpc]; rfl) hsema
  case checked tid b hl =>
    obtain ⟨m, hm, rfl, hpast, rfl⟩ := hok
    exact h.executeReturn hp hm hpast (by rw [hpc]; rfl) hl (by simp [Thread.held, hm])
  case refused tid b hl =>
    obtain ⟨m, hm, rfl, hpast, rfl⟩ := hok
    exact h.executeReturn hp hm hpast (by rw [hpc]; rfl) hl (List.sublist_append_left _ _)
  case waitDown tid b hsema => exact hplain (hset rfl) rfl rfl (fun f => hok)
  case waitReap tid b | exitFree b =>
    exact h.release hp (by rw [hpc]; rfl) rfl hok.1 hok.2 (fun T hT hTm => by simp [PcOk, hT, hTm])
  case waitMark tid b r =>
    refine hplain (Quiet.trans (hset ?_) (Quiet.emit _ rfl)) rfl rfl (fun f => hok)
    rfl
  case exitStatus b hb =>
    obtain ⟨s₁, hquiet, heq⟩ := Quiet.settleStatus (s := s) p b
    exact heq ▸ hplain hquiet rfl rfl (fun f => hok)
  case exitChildren b hb => exact h.releaseChild hp (by rw [hpc]; rfl) hok
  case exitChild b hb hflag => exact hplain (hset rfl) rfl rfl (fun f => hok)
  case disowned b hb hflag => exact hgoto rfl rfl hok
  case exitUp b hb => exact hplain (hset rfl) rfl rfl (fun f => hok)
  case leave => exact h.leave hp hpc (hunread rfl)

/-- **Every step keeps the invariant**, if no thread leaves while it is still read. -/
theorem ExecInv.step {a : Action} (h : ExecInv s) (hguard : LeavesUnread s a)
    (hstep : step s a = some s') : ExecInv s' := by
  cases steps_of_step hstep with
  | exec hat hpage hblock => exact h.create hat hpage hblock
  | execFail hat => exact h.quiet (Quiet.emit s rfl)
  | load ok hat => exact h.load hat ok
  | @exit p status hat =>
    obtain ⟨s₁, hquiet, heq⟩ := Quiet.exitW (s := s) p status
    exact heq ▸ h.quiet_goto hquiet hat.1 (by rw [hat.2]; rfl) rfl (fun f => h.making_user hat)
  | kill hat =>
    refine ExecInv.quiet (h.goto hat.1 (by rw [hat.2]; rfl) rfl ?_) (Quiet.emit _ rfl)
    exact h.making_user hat
  | wait tid hat => exact h.wait hat tid
  | run hp hrun => exact h.run hp hrun (fun hpc => hguard hpc)
  | scribblePage T hpage => exact h.quiet (Quiet.scribblePage hpage T)
  | scribbleBlock N hblock => exact h.quiet (Quiet.scribbleBlock hblock N)

theorem execInv_init : ExecInv init := by
  constructor
  case toHeld =>
    constructor
    case nodup => decide
    case tid_inj =>
      intro p hp q hq
      rcases mem_init hp with rfl | rfl <;> rcases mem_init hq with rfl | rfl <;> decide
    case made_lt => intro p hp m hm; rcases mem_init hp with rfl | rfl <;> cases hm
    case held_allocated => intro p hp b hb; rcases mem_init hp with rfl | rfl <;> cases hb
    case held_inj => intro p hp q hq b hb; rcases mem_init hp with rfl | rfl <;> cases hb
    all_goals
      intro p hp
      rcases mem_init hp with rfl | rfl <;> decide
  case pc_ok => intro p hp; rcases mem_init hp with rfl | rfl <;> rfl
  case load_sema => intro q hq; rcases mem_init hq with rfl | rfl <;> decide
  case made => intro q hq hu; rcases mem_init hq with rfl | rfl <;> cases hu
  case fresh => intro q hq hpc; rcases mem_init hq with rfl | rfl <;> cases hpc
  all_goals
    intros
    simp_all [init]

/-! ## The result -/

end Process
end Asg1

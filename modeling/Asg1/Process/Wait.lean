import Asg1.Process.WaitInv

/-!
# `Process.Wait` — the first wait for a child returns its exit status

The parents' steps keep the invariant of `Process.WaitInv`, and with them every step of the system does. So in
every run that meets `WaitsSound` the first `process_wait` for a child returns the status it called `exit` with,
or -1 if the kernel ended it, and every other one returns -1 at once. Without the condition a status below -1 is
lost: `process_exit` takes it for one that was never set.
-/

namespace Asg1
namespace Process

/-! ## Waiting -/

variable {s : State} {p b : Addr} {l : List Event} {p : Addr} {t r c : Int} {s s' : State}

/-- A wait that is turned down says nothing new, if there was no child to wait for. -/
theorem sameTale_refuse {p : Int} (h : unwaited p t l = false) : SameTale l (.waitRet p t (-1) :: l) := by
  refine ⟨fun c => SameFate.cons rfl, ?_, ?_, fun hl => ⟨?_, hl⟩⟩
  · intro q c
    show (if p = q ∧ t = c then false else unwaited q c l) = _
    split
    · rename_i heq
      rw [← heq.1, ← heq.2, h]
    · rfl
  · intro q c r hr
    rcases List.mem_cons.mp hr with heq | hr
    · cases heq
    · exact hr
  · show if unwaited p t l = true then _ else _
    rw [if_neg (by rw [h]; exact Bool.false_ne_true)]

/-- A thread in user mode has not waited for exactly the children on its list. -/
theorem ChildrenOk.unwaited_iff (h : ChildrenOk s) (hat : At s p .user) (c : Int) :
    unwaited (s.thread p).tid c s.log = true ↔ ∃ b ∈ (s.thread p).childNodes, (s.node b).tid = c := by
  rw [h.children p hat.1 (by rw [hat.2]; rfl) c]
  constructor
  · rintro (hb | ⟨b, r, hpc⟩)
    · exact hb
    · rw [hat.2] at hpc; cases hpc
  · exact .inl

theorem WaitInv.wait (h : WaitInv s) (hnode : NodeInv s) (hat : At s p .user) (t : Int) :
    WaitInv (processWait s p t) := by
  have hmild := Mild.touchNodes s p (searched s (s.thread p).childNodes t)
  unfold processWait
  simp only
  cases hfind : findChild s (s.thread p).childNodes t with
  | none =>
    have hno : unwaited (s.thread p).tid t s.log = false := by
      rw [← Bool.not_eq_true, h.children.unwaited_iff hat]
      rintro ⟨b, hb, hbt⟩
      exact List.find?_eq_none.mp hfind b hb (decide_eq_true hbt)
    refine h.mild hnode (hmild.trans ⟨rfl, rfl, rfl, ?_, fun _ _ => ⟨rfl, rfl, rfl⟩, sameTale_refuse ?_⟩)
    · exact fun q _ => ⟨_, rfl⟩
    · rw [hmild.log.unwaited]; exact hno
  | some b =>
    have hb : b ∈ (s.thread p).childNodes := List.mem_of_find?_eq_some hfind
    have hbt : (s.node b).tid = t := by simpa using List.find?_some hfind
    have hheld := mem_held_of_childNodes hb
    simp only [h.tids.waiting p hat.1 b hheld, Bool.false_eq_true, if_false]
    obtain ⟨n, hn⟩ := hmild.thread p hat.1
    refine (h.mild hnode hmild).move rfl rfl rfl rfl ?_ ?_ ?_ ?_
    · rw [hn, hat.2]; rfl
    · rw [hn]
      rintro t' b' r (hpc : (s.thread p).pc = _)
      rw [hat.2] at hpc; cases hpc
    · rintro t' b' r hpc
      cases hpc
    · rintro t' b' (hpc | hpc) <;> cases hpc
      rw [hn]
      exact ⟨hb, by rw [(hmild.node b (hnode.held p hat.1 b hheld)).1]; exact hbt⟩

/-- The child has signalled. -/
theorem WaitInv.down (h : WaitInv s) (hnode : NodeInv s) (hp : p ∈ s.allList)
    (hpc : (s.thread p).pc = .waitDown t b) (n : Nat) :
    WaitInv ((s.setNode b { s.node b with sema := n }).goto p (.waitReap t b)) := by
  have hmild : Mild s (s.setNode b { s.node b with sema := n }) := Mild.setNode s (fun _ => ⟨rfl, rfl, rfl⟩)
  refine (h.mild hnode hmild).move rfl rfl rfl rfl ?_ ?_ ?_ ?_
  · show Pc.stage _ = (s.thread p).pc.stage
    rw [hpc]; rfl
  · rintro t' b' r (hpc' : (s.thread p).pc = _)
    rw [hpc] at hpc'; cases hpc'
  · rintro t' b' r hpc'
    cases hpc'
  · rintro t' b' (hpc' | hpc') <;> cases hpc'
    obtain ⟨hb, hbt⟩ := h.children.down p hp t b (.inl hpc)
    refine ⟨hb, ?_⟩
    rw [State.setNode_node, if_pos rfl]
    exact hbt

/-- A thread takes node `b` from its list and frees it. -/
theorem Reshape.release (h : WaitInv s) {pc : Pc} (hstage : pc.stage = (s.thread p).pc.stage) :
    Reshape s p { s.thread p with childNodes := (s.thread p).childNodes.erase b, pc } s.log := by
  refine ⟨rfl, rfl, ?_, fun _ hm => hm, hstage, SameFate.refl s.log, fun _ _ _ _ => rfl, h.children.exec_lt, h.log⟩
  grind [List.mem_of_mem_erase]

/-- `process_wait` takes the status and frees the node. -/
theorem WaitInv.reap (h : WaitInv s) (hnode : NodeInv s) (hheld : Held s)
    (hp : p ∈ s.allList) (hpc : (s.thread p).pc = .waitReap t b) :
    WaitInv ((s.setThread p { s.thread p with
      childNodes := (s.thread p).childNodes.erase b, pc := .waitMark t b (s.node b).exitStatus }).free b) := by
  obtain ⟨hb, hbt⟩ := h.children.down p hp t b (.inr hpc)
  have hbheld := mem_held_of_childNodes hb
  have hno : ∀ q, ¬ Uses s q b := hnode.reaping p hp b (by rw [hpc]; rfl)
  have hstage : (s.thread p).pc.stage = .living := by rw [hpc]; rfl
  have hnodup : (s.thread p).childNodes.Nodup := (List.nodup_append.mp (hheld.held_nodup p hp)).1
  refine h.reshape (Reshape.release h (by rw [hstage]; rfl)) (fun _ => ⟨?_, ?_, ?_⟩)
  · -- the child that was found has moved from the list to the program counter
    intro _ c
    refine (h.children.children p hp hstage c).trans ?_
    have herase : ∀ x, x ∈ (s.thread p).childNodes.erase b ↔ x ≠ b ∧ x ∈ (s.thread p).childNodes :=
      fun x => hnodup.mem_erase_iff
    grind
  · rintro t' b' (hpc' | hpc') <;> cases hpc'
  · rintro t' b' r ⟨⟩
    refine ⟨hbt ▸ h.status.done p hp b hbheld hno, hbt ▸ h.tids.lt p hp b hbheld, ?_, ?_⟩
    · -- the thread whose node it was is past its signal
      intro q hq hqt
      by_contra hl
      exact hno q ⟨hq, h.tids.owner p hp b hbheld q hq (hqt.trans hbt.symm), hl⟩
    · intro x hx hxt
      obtain ⟨hxb, hx⟩ := hnodup.mem_erase_iff.mp hx
      exact hxb (h.tids.inj p hp x (mem_held_of_childNodes hx) b hbheld (hxt.trans hbt.symm))

/-- `process_exit` gives back the node of a child. -/
theorem WaitInv.exitFree (h : WaitInv s) (hpc : (s.thread p).pc = .exitFree b) :
    WaitInv ((s.setThread p { s.thread p with
      childNodes := (s.thread p).childNodes.erase b, pc := .exitChildren }).free b) := by
  refine h.reshape (Reshape.release h (by rw [hpc]; rfl)) (fun _ => ⟨?_, ?_, ?_⟩)
  · intro hst; cases hst
  · rintro t b' (hpc' | hpc') <;> cases hpc'
  · intro t b' r hpc'; cases hpc'

/-- `process_wait` returns the status of the child it waited for. -/
theorem WaitInv.waitReturn (h : WaitInv s) (hheld : Held s)
    (hp : p ∈ s.allList) (hpc : (s.thread p).pc = .waitMark t b r) :
    WaitInv ((s.emit (.waitRet (s.thread p).tid t r)).goto p .user) := by
  have hstage : (s.thread p).pc.stage = .living := by rw [hpc]; rfl
  obtain ⟨hfinal, _, _⟩ := h.status.mark p hp t b r hpc
  have hun : unwaited (s.thread p).tid t s.log = true :=
    (h.children.children p hp hstage t).mpr (.inr ⟨b, r, hpc⟩)
  have hread : ∀ q c, unwaited q c (.waitRet (s.thread p).tid t r :: s.log) =
      if (s.thread p).tid = q ∧ t = c then false else unwaited q c s.log := fun _ _ => rfl
  have hexec := h.children.exec_lt
  have hnone : ∀ t' b', Pc.user ≠ .waitDown t' b' ∧ Pc.user ≠ .waitReap t' b' := by simp
  refine h.reshape (p := p) ⟨rfl, rfl, fun _ hb => hb, fun _ hm => hm, by rw [hstage]; rfl,
    fun _ => SameFate.cons rfl, ?_, by grind, ?_, h.log⟩ (fun _ => ⟨?_, by grind, by rintro t' b' v ⟨⟩⟩)
  · intro q hq hqp c
    refine (hread _ c).trans (if_neg ?_)
    rintro ⟨heq, _⟩
    exact hqp (hheld.tid_inj q hq p hp heq.symm)
  · show if unwaited _ _ _ = true then _ else _
    rw [if_pos hun]
    exact hfinal
  · -- the child that was waited for is not on the list any more
    intro _ c
    have hold := h.children.children p hp hstage c
    have hgone := h.children.mark p hp t b r hpc
    refine (iff_of_eq (congrArg (· = true) (hread _ c))).trans ?_
    grind

/-! ## `process_execute` -/

/-- What the result of a `process_execute` adds to the children that were not waited for. -/
theorem unwaited_exec {p q d : Int} (hc : 0 < c) (ok : Bool) :
    unwaited q d (.exec p (some c) (if ok then c else TID_ERROR) :: l) =
      if p = q ∧ c = d ∧ ok = true then true else unwaited q d l := by
  simp only [unwaited, Option.some.injEq]
  cases ok with
  | true => grind
  | false =>
    rw [if_neg, if_neg (by simp)]
    rintro ⟨_, rfl, hr⟩
    rw [← hr] at hc
    cases hc

/-- `process_execute` returns; a child that has loaded is put on the list. -/
theorem WaitInv.executeReturn (h : WaitInv s) (hheld : Held s) {m : Made}
    (hp : p ∈ s.allList) (hst : (s.thread p).pc.stage = .living) (hum : (s.thread p).pc.unmarking)
    (hm : (s.thread p).making = some m) (hpos : 0 < m.tid) (ok : Bool) :
    WaitInv (executeReturn s p m.tid (if ok then m.tid else TID_ERROR)
      (if ok then (s.thread p).childNodes ++ [m.node] else (s.thread p).childNodes)) := by
  have hread : ∀ q c, unwaited q c (.exec (s.thread p).tid (some m.tid) (if ok then m.tid else TID_ERROR) :: s.log) =
      if (s.thread p).tid = q ∧ m.tid = c ∧ ok = true then true else unwaited q c s.log :=
    fun q c => unwaited_exec hpos ok
  have hlt := hheld.tid_lt p hp
  have hexec := h.children.exec_lt
  have hmade := h.tids.made p hp m hm
  refine h.reshape (p := p) ⟨rfl, rfl, by grind, by rintro m' ⟨⟩, by rw [hst]; rfl, fun _ => SameFate.cons rfl,
    ?_, by grind, trivial, h.log⟩ (fun _ => ⟨?_, ?_, by rintro t' b' v ⟨⟩⟩)
  · intro q hq hqp c
    refine (hread _ c).trans (if_neg ?_)
    rintro ⟨heq, _⟩
    exact hqp (hheld.tid_inj q hq p hp heq.symm)
  · intro _ c
    have hold := h.children.children p hp hst c
    refine (iff_of_eq (congrArg (· = true) (hread _ c))).trans ?_
    grind
  · rintro t b (hpc | hpc) <;> cases hpc

/-! ## Threads come and go -/

/-- The thread has signalled: from now on its node is its parent's alone. -/
theorem WaitInv.signal (h : WaitInv s) (hp : p ∈ s.allList)
    (hpc : (s.thread p).pc = .exitUp) (hb : (s.thread p).tidNode = some b)
    (htid : (s.node b).tid = (s.thread p).tid) : WaitInv (s.goto p .leave) := by
  have hu : Uses s p b := ⟨hp, hb, by rw [hpc]; intro heq; cases heq⟩
  have huses : ∀ q x, Uses (s.goto p .leave) q x ↔ Uses s q x ∧ q ≠ p := by grind
  have hheld : ∀ q, ((s.goto p .leave).thread q).held = (s.thread q).held := by grind
  constructor
  case tids =>
    constructor
    case lt => exact fun q hq => hheld q ▸ h.tids.lt q hq
    case inj => exact fun q hq => hheld q ▸ h.tids.inj q hq
    case made => grind [h.tids.made]
    case owner => grind [h.tids.owner]
    case waiting => grind [h.tids.waiting]
  case status =>
    constructor
    case living => grind [h.status.living]
    case deciding => grind [h.status.deciding]
    case stage => grind [h.status.stage]
    case done =>
      intro q hq x hx hno
      by_cases hxb : x = b
      · have hst := h.status.stage p b hu
        rw [hpc, ← htid] at hst
        exact hxb ▸ hst
      · exact h.status.done q hq x (by grind) (by grind)
    case mark => grind [h.status.mark]
    case dead_lt => exact h.status.dead_lt
  case children =>
    constructor
    case children => grind [h.children.children]
    case down => grind [h.children.down]
    case mark => grind [h.children.mark]
    case exec_lt => exact h.children.exec_lt
  case log => exact h.log

theorem WaitInv.leave (h : WaitInv s) (hpc : (s.thread p).pc = .leave) :
    WaitInv { s with allList := s.allList.filter (· ≠ p) } := by
  have hmem : ∀ {q}, q ∈ s.allList.filter (· ≠ p) → q ∈ s.allList := List.mem_of_mem_filter
  have huses : ∀ {q b}, Uses { s with allList := s.allList.filter (· ≠ p) } q b ↔ Uses s q b := by grind
  constructor
  case tids =>
    constructor
    · exact fun q hq => h.tids.lt q (hmem hq)
    · exact fun q hq => h.tids.inj q (hmem hq)
    · exact fun q hq => h.tids.made q (hmem hq)
    · exact fun q hq b hb r hr => h.tids.owner q (hmem hq) b hb r (hmem hr)
    · exact fun q hq => h.tids.waiting q (hmem hq)
  case status =>
    constructor
    · exact fun q hq => h.status.living q (hmem hq)
    · exact fun q hq => h.status.deciding q (hmem hq)
    · exact fun q b hu => h.status.stage q b (huses.mp hu)
    · exact fun q hq b hb hno => h.status.done q (hmem hq) b hb (fun r hr => hno r (huses.mpr hr))
    · intro q hq t b r hqpc
      obtain ⟨hf, hlt, hall⟩ := h.status.mark q (hmem hq) t b r hqpc
      exact ⟨hf, hlt, fun x hx => hall x (hmem hx)⟩
    · exact h.status.dead_lt
  case children =>
    constructor
    · exact fun q hq => h.children.children q (hmem hq)
    · exact fun q hq => h.children.down q (hmem hq)
    · exact fun q hq => h.children.mark q (hmem hq)
    · exact h.children.exec_lt
  case log => exact h.log

/-- A thread that has not started any child has none to wait for. -/
theorem exec_of_unwaited {p : Int} (h : unwaited p c l = true) : ∃ r, .exec p (some c) r ∈ l := by
  induction l with
  | nil => cases h
  | cons e l ih =>
    have hrest : unwaited p c l = true → ∃ r, .exec p (some c) r ∈ e :: l := by
      intro hl
      obtain ⟨r, hr⟩ := ih hl
      exact ⟨r, List.mem_cons_of_mem e hr⟩
    cases e with
    | exec q d r =>
      simp only [unwaited] at h
      split at h
      · rename_i heq
        rw [heq.1, heq.2.1]
        exact ⟨r, List.mem_cons_self⟩
      · exact hrest h
    | waitRet q t r =>
      simp only [unwaited] at h
      split at h
      · cases h
      · exact hrest h
    | load | exitCall | killed | print | strayThread | strayNode => exact hrest h

/-- A new thread has a new tid, of which the log says nothing. -/
theorem WaitInv.create (h : WaitInv s) (hnode : NodeInv s) (hheld : Held s) {page block : Addr}
    (hat : At s p .user) (hpage : page ∉ s.allList) (hblock : s.allocated block = false) :
    WaitInv (processExecute s p page block) := by
  obtain ⟨hp, hpc⟩ := hat
  have hpp : page ≠ p := by rintro rfl; exact hpage hp
  set s' := processExecute s p page block with hs'
  have hnodes : ∀ x, s.allocated x = true → s'.node x = s.node x := by grind
  have hkeep : ∀ q ∈ s.allList, (s'.thread q).tid = (s.thread q).tid ∧
      (s'.thread q).tidNode = (s.thread q).tidNode ∧ (s'.thread q).childNodes = (s.thread q).childNodes ∧
      (s'.thread q).pc.stage = (s.thread q).pc.stage ∧ (q ≠ p → s'.thread q = s.thread q) := by grind
  have hmem : ∀ q, q ∈ s'.allList ↔ q ∈ s.allList ∨ q = page := by grind
  have hnew : s'.thread page = newThread s.nextTid block := by grind
  have hblk : s'.node block = newNode s.nextTid page := by grind
  -- the parent answers for the new node, nobody else does
  have hholds : ∀ q x, q ∈ s'.allList → x ∈ (s'.thread q).held →
      (q ∈ s.allList ∧ x ∈ (s.thread q).held ∧ s'.node x = s.node x) ∨ (q = p ∧ x = block) := by
    have := hnode.held
    grind
  have huses : ∀ q x, Uses s' q x ↔ Uses s q x ∨ (q = page ∧ x = block) := by grind
  have hmark : ∀ q t b r, q ∈ s'.allList → (s'.thread q).pc = .waitMark t b r →
      q ∈ s.allList ∧ (s.thread q).pc = .waitMark t b r := by grind
  constructor
  case tids =>
    have hlt := h.tids.lt
    have htid := hheld.tid_lt
    constructor
    case lt => grind
    case inj => grind [h.tids.inj]
    case made => have := hnode.held; grind [h.tids.made, mem_held_of_making]
    case owner => grind [h.tids.owner]
    case waiting => grind [h.tids.waiting]
  case status =>
    have hfresh := h.status.dead_lt s.nextTid (Int.le_refl _)
    constructor
    case living => grind [h.status.living]
    case deciding => grind [h.status.deciding]
    case stage => grind [h.status.stage, StageOk, hnode.allocated]
    case done =>
      intro q hq x hx hno
      rcases hholds q x hq hx with ⟨hq, hx, heq⟩ | ⟨_, rfl⟩
      · rw [heq]
        exact h.status.done q hq x hx (fun r hr => hno r ((huses r x).mpr (.inl hr)))
      · exact absurd ((huses page x).mpr (.inr ⟨rfl, rfl⟩)) (hno page)
    case mark => grind [h.status.mark]
    case dead_lt => exact fun t ht => h.status.dead_lt t (Int.le_of_lt ht)
  case children =>
    have hexec := h.children.exec_lt
    constructor
    case children =>
      intro q hq hst c
      by_cases hqs : q ∈ s.allList
      · have hchildren := h.children.children q hqs (by grind) c
        have := hnode.held q hqs
        grind
      · -- nobody has waited for a child of the new thread, which has none
        have hnone : unwaited s.nextTid c s.log ≠ true := by
          intro hun
          obtain ⟨r, hr⟩ := exec_of_unwaited hun
          exact absurd (hexec _ c r hr) (Int.lt_irrefl _)
        grind
    case down => have := hnode.held; grind [h.children.down]
    case mark => have := hnode.held; grind [h.children.mark]
    case exec_lt => grind
  case log => exact h.log

/-! ## Every step -/

/-- `process_wait` writes to the node it has freed, and returns. -/
theorem WaitInv.mark (h : WaitInv s) (hnode : NodeInv s) (hheld : Held s)
    (hp : p ∈ s.allList) (hpc : (s.thread p).pc = .waitMark t b r) :
    WaitInv ((((s.touch p b).setNode b { s.node b with waiting := true }).emit
      (.waitRet (s.thread p).tid t r)).goto p .user) := by
  -- the write goes to a block that is free, so no node is changed
  have hmild : Mild s ((s.touch p b).setNode b { s.node b with waiting := true }) := by
    refine (Mild.touch s p b).trans (Mild.setNode _ ?_)
    rw [State.touch_allocated, hnode.marking p hp b (by rw [hpc]; rfl)]
    intro heq; cases heq
  have hheld' : Held ((s.touch p b).setNode b { s.node b with waiting := true }) :=
    hheld.congr hmild.allList hmild.allocated hmild.nextTid (by simp)
  have hret := (h.mild hnode hmild).waitReturn hheld' (hmild.allList ▸ hp) (by simpa using hpc)
  simpa using hret

/-- A step inside the kernel. -/
theorem WaitInv.run (h : WaitInv s) (hnode : NodeInv s) (hexec : ExecInv s)
    (hp : p ∈ s.allList) (hstep : runPc s p (s.thread p).pc = some s') (hguard : ReleasesDone s (.run p)) :
    WaitInv s' := by
  have hok := hexec.pc_ok p hp
  simp only [ReleasesDone] at hguard
  generalize hpc : (s.thread p).pc = pc at hstep hguard
  have hgo : ∀ {s₁ : State} {pc' : Pc}, Mild s s₁ → pc.easy = true → pc'.stage = pc.stage → pc'.easy = true →
      WaitInv (s₁.goto p pc') :=
    fun hm he hst he' => h.mild_goto hnode hm hp (by rw [hpc, hst]) (by rw [hpc]; exact Pc.unmarking_of_easy he) he'
  have hexecute : ∀ {m : Made}, pc.stage = .living → pc.easy = true → (s.thread p).making = some m → ChildPast s m →
      ∀ ok : Bool, WaitInv (Process.executeReturn s p m.tid (if ok then m.tid else TID_ERROR)
        (if ok then (s.thread p).childNodes ++ [m.node] else (s.thread p).childNodes)) :=
    fun hst he hm hpast => h.executeReturn hexec.toHeld hp (hpc ▸ hst) (hpc ▸ Pc.unmarking_of_easy he) hm
      (hexec.load_pos _ _ hpast.load)
  have hran := ran_of_runPc hstep
  cases hran <;> simp only [PcOk, hpc] at hok
  case lost hb hthrough =>
    cases pc with
    | exitStatus => exact h.lose hnode hexec.toHeld hp hpc hb
    | setLoaded ok =>
      obtain ⟨_, _, b, _, hb'⟩ := hexec.made p hp (by rw [hpc]; rfl)
      cases hb.symm.trans hb'
    | exitChildren | exitChild | exitUp => exact hgo (Mild.refl s) rfl rfl rfl
    | _ => cases hthrough
  case setLoaded ok b hb => exact hgo (Mild.storeLoaded s b ok) rfl rfl rfl
  case loaded ok _ =>
    refine h.move rfl rfl rfl rfl (by rw [hpc]; rfl) (hpc ▸ Pc.unmarking_of_easy rfl) (Pc.unmarking_of_easy rfl) ?_
    rintro t b (heq | heq) <;> cases heq
  case unloaded ok _ => exact h.die hnode hexec.toHeld hp (by rw [hpc]; rfl) _
  case created | disowned => exact hgo (Mild.refl s) rfl rfl rfl
  case missed tid =>
    obtain ⟨_, _, _, _, _, he, _⟩ := hok
    cases he
  case found | passed | next | readNode => exact hgo (Mild.peek s p _ _) rfl rfl rfl
  case strayed tid e he =>
    obtain ⟨_, _, _, _, hbefore⟩ := hok
    exact absurd hbefore.mem he
  case noNode tid c hb =>
    obtain ⟨m, _, _, hchild, rfl⟩ := hok
    cases hb.symm.trans hchild.node
  case downLoad tid c b hsema =>
    have hsema := Mild.setSema (s.peek p c ((s.thread c).tid == tid)) c ((s.thread c).loadSema - 1)
    rw [State.peek_thread] at hsema
    exact hgo ((Mild.peek s p c _).trans hsema) rfl rfl rfl
  case checked tid b hl =>
    obtain ⟨m, hm, rfl, hpast, rfl⟩ := hok
    exact hexecute rfl rfl hm hpast true
  case refused tid b hl =>
    obtain ⟨m, hm, rfl, hpast, rfl⟩ := hok
    exact hexecute rfl rfl hm hpast false
  case waitDown tid b hsema =>
    rw [hnode.touch_child hp hok.2]
    exact h.down hnode hp hpc _
  case waitReap tid b =>
    rw [hnode.touch_child hp hok.2]
    exact h.reap hnode hexec.toHeld hp hpc
  case waitMark tid b r => exact h.mark hnode hexec.toHeld hp hpc
  case exitStatus b hb => exact h.settleStatus hnode hexec.toHeld hp hpc hb
  case exitChildren own hb =>
    rcases hnode.releaseChild_eq own hp (hguard rfl) with heq | ⟨b, -, heq, -⟩ <;> rw [heq]
    · exact hgo (Mild.refl s) rfl rfl rfl
    · exact hgo (Mild.refl s) rfl rfl rfl
  case exitFree b =>
    rw [hnode.touch_child hp hok.2]
    exact h.exitFree hpc
  case exitChild b hb _ =>
    refine hgo ((Mild.touch s p b).trans (Mild.setNode _ ?_)) rfl rfl rfl
    rw [State.touch_node]
    exact fun _ => ⟨rfl, rfl, rfl⟩
  case exitUp b hb =>
    have hu : Uses s p b := ⟨hp, hb, by rw [hpc]; rintro ⟨⟩⟩
    rw [State.touch_of_allocated s p b (hnode.allocated p b hu)]
    refine WaitInv.signal (h.mild hnode (Mild.setNode s ?_)) hp hpc hb ?_
    · exact fun _ => ⟨rfl, rfl, rfl⟩
    · simpa using hnode.tid p b hu
  case leave => exact h.leave hpc

/-- The statuses that `process_exit` can tell from one that was never set. -/
def ExitsTold : Action → Prop
  | .exit _ status => -1 ≤ status
  | _ => True

instance : (a : Action) → Decidable (ExitsTold a)
  | .exit _ status => inferInstanceAs (Decidable (-1 ≤ status))
  | .exec .. | .execFail .. | .load .. | .run .. | .kill .. | .wait .. | .scribblePage .. | .scribbleBlock .. =>
    isTrue trivial

/-- **Every step keeps the agreement of nodes and log**, if the conditions on nodes are met and no status below -1
    is used. -/
theorem WaitInv.step {a : Action} (h : WaitInv s) (hnode : NodeInv s) (hexec : ExecInv s)
    (hrelease : ReleasesDone s a) (hexits : ExitsTold a) (hstep : step s a = some s') : WaitInv s' := by
  cases steps_of_step hstep with
  | exec hat hpage hblock => exact h.create hnode hexec.toHeld hat hpage hblock
  | execFail hat => exact h.mild hnode (Mild.emit s rfl)
  | @load p ok hat =>
    exact h.mild_goto hnode (Mild.emit s (e := .load (s.thread p).tid ok) rfl) hat.1 (by rw [hat.2]; rfl)
      (hat.2 ▸ Pc.unmarking_of_easy rfl) rfl
  | exit status hat => exact h.exitW hnode hexec.toHeld hat hexits
  | @kill p hat => exact h.die hnode hexec.toHeld hat.1 (by rw [hat.2]; rfl) (s.thread p).loadSema
  | wait tid hat => exact h.wait hnode hat tid
  | run hp hrun => exact h.run hnode hexec hp hrun hrelease
  | scribblePage T hpage => exact h.mild hnode (Mild.scribblePage hpage T)
  | scribbleBlock N hblock =>
    refine h.mild hnode (Mild.setNode s ?_)
    rw [hblock]
    intro heq; cases heq

theorem waitInv_init : WaitInv init := by
  have hnil : ∀ t, ¬ Dead [] t := by
    rintro t (hk | ⟨_, hc⟩)
    · cases hk
    · cases hc
  constructor
  case tids =>
    constructor
    all_goals
      intro p hp b hb
      rcases mem_init hp with rfl | rfl <;> cases hb
  case status =>
    constructor
    · intro q hq _
      exact ⟨hnil _, rfl⟩
    · intro q hq hst
      rcases mem_init hq with rfl | rfl <;> cases hst
    · intro q b hu
      obtain ⟨rfl, rfl⟩ := uses_init hu
      rfl
    · intro p hp b hb
      rcases mem_init hp with rfl | rfl <;> cases hb
    · intro p hp t b r hpc
      rcases mem_init hp with rfl | rfl <;> cases hpc
    · intro t _
      exact ⟨hnil _, rfl⟩
  case children =>
    constructor
    · intro p hp _ c
      constructor
      · intro hun; cases hun
      · rintro (⟨b, hb, _⟩ | ⟨b, r, hpc⟩)
        · rcases mem_init hp with rfl | rfl <;> cases hb
        · rcases mem_init hp with rfl | rfl <;> cases hpc
    · intro p hp t b hpc
      rcases mem_init hp with rfl | rfl <;> rcases hpc with hpc | hpc <;> cases hpc
    · intro p hp t b r hpc
      rcases mem_init hp with rfl | rfl <;> cases hpc
    · intro p c r hr; cases hr
  case log => trivial

/-! ## The result -/

/-- No thread leaves while it is still read, nodes are given back when their threads have signalled and not used
    again while a `process_wait` has still to write there, and `exit` is called with -1 or more. -/
def WaitsSound (s : State) (a : Action) : Prop :=
  LeavesUnread s a ∧ ReleasesDone s a ∧ ReusesUnmarked s a ∧ ExitsTold a

instance (s : State) (a : Action) : Decidable (WaitsSound s a) := inferInstanceAs (Decidable (_ ∧ _ ∧ _ ∧ _))

/-- The log is in order, and a thread that is blocked in `process_wait` waits for a child of its own that it has
    not waited for; that child has signalled, or is there and has still to do so. -/
structure WaitExitAgree (s : State) : Prop where
  log : LogOk s.log
  blocked : ∀ p ∈ s.allList, ∀ t b, (s.thread p).pc = .waitDown t b → unwaited (s.thread p).tid t s.log = true ∧
    (0 < (s.node b).sema ∨ ∃ q ∈ s.allList, (s.thread q).tid = t ∧ (s.thread q).pc ≠ .leave)

theorem WaitInv.waitExitAgree (h : WaitInv s) (hnode : NodeInv s) : WaitExitAgree s := by
  refine ⟨h.log, ?_⟩
  intro p hp t b hpc
  obtain ⟨hb, hbt⟩ := h.children.down p hp t b (.inl hpc)
  refine ⟨(h.children.children p hp (by rw [hpc]; rfl) t).mpr (.inl ⟨b, hb, hbt⟩), ?_⟩
  by_cases huse : ∃ q, Uses s q b
  · obtain ⟨q, hq⟩ := huse
    exact .inr ⟨q, hq.1, by rw [← hbt, hnode.tid q b hq], hq.2.2⟩
  · have hno : ∀ q, ¬ Uses s q b := fun q hq => huse ⟨q, hq⟩
    obtain ⟨_, hsema | ⟨t', hpc'⟩⟩ := hnode.done p hp b (mem_held_of_childNodes hb) hno
    · exact .inl hsema
    · rw [hpc] at hpc'; cases hpc'

/-- **`wait` agrees with `exit`.** In every run that meets `WaitsSound`, the first `process_wait` for a child
    returns the status the child called `exit` with, or -1 if the kernel ended it, and that is the status in its
    one exit line; every other `process_wait` returns -1 without blocking. -/
theorem wait_exit_agreement {s : State} (h : Lts.Reaches step WaitsSound init s) : WaitExitAgree s := by
  obtain ⟨_, hnode, hwait⟩ := h.invariant (I := fun s => ExecInv s ∧ NodeInv s ∧ WaitInv s)
    ⟨execInv_init, nodeInv_init, waitInv_init⟩ (by
      rintro s s' a ⟨hexec, hnode, hwait⟩ ⟨hleave, hrelease, hreuse, hexits⟩ hstep
      exact ⟨hexec.step hleave hstep, hnode.step hexec hleave hrelease hreuse hstep,
        hwait.step hnode hexec hrelease hexits hstep⟩)
  exact hwait.waitExitAgree hnode

/-- The main thread starts a child (tid 3), which calls `exit(status)` and leaves; then it waits for the child,
    and once more. -/
def waitTwice (status : Int) : List Action :=
  [.exec 0 2 1, .load 2 true, .run 2, .run 2] ++ List.replicate 9 (.run 0) ++
  [.exit 2 status] ++ List.replicate 5 (.run 2) ++ [.wait 0 3, .run 0, .run 0, .run 0, .wait 0 3]

/-- With status 7 the first wait returns 7 and the second -1. -/
theorem wait_exit_agreement_waitTwice :
    ∃ s, Lts.run step WaitsSound init (waitTwice 7) = some s ∧
      s.log.take 2 = [.waitRet 1 3 (-1), .waitRet 1 3 7] ∧ WaitExitAgree s := by
  refine ⟨_, rfl, by decide, ?_⟩
  exact wait_exit_agreement (Lts.reaches_of_run (waitTwice 7) Lts.Reaches.refl rfl)

/-- **A status below -1 is lost**: the child calls `exit(-5)`, the exit line shows -1, and so does the first
    wait. -/
theorem wait_loses_negative_status :
    ∃ s l, Lts.Reaches step (fun _ _ => True) init s ∧ s.log = .waitRet 1 3 (-1) :: .waitRet 1 3 (-1) :: l ∧
      unwaited 1 3 l = true ∧ .exitCall 3 (-5) ∈ l ∧ prints l 3 = [-1] ∧ ¬ WaitExitAgree s := by
  have hrun : ∃ s l, Lts.run step (fun _ _ => True) init (waitTwice (-5)) = some s ∧
      s.log = .waitRet 1 3 (-1) :: .waitRet 1 3 (-1) :: l ∧ unwaited 1 3 l = true ∧ .exitCall 3 (-5) ∈ l ∧
      prints l 3 = [-1] := ⟨_, _, rfl, rfl, by decide, by decide, by decide⟩
  obtain ⟨s, l, hs, hlog, hun, hcall, hprint⟩ := hrun
  refine ⟨s, l, Lts.reaches_of_run _ Lts.Reaches.refl hs, hlog, hun, hcall, hprint, ?_⟩
  intro hagree
  have hok := hagree.log
  rw [hlog] at hok
  have hfirst : if unwaited 1 3 l = true then Final l 3 (-1) else (-1 : Int) = -1 := hok.2.1
  rw [if_pos hun] at hfirst
  exact absurd (hfirst.shows.1 (-5) hcall) (by decide)

end Process
end Asg1

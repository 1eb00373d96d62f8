import Asg1.Process.NodeInv

/-!
# `Process.Ownership` — no node is touched after it has been freed

`process_exit` of a parent frees the nodes of its children; where it should tell a living child so, it clears its
own flag (`cur->tid_node->child` is the thread itself), and the child goes on using its node
(`parent_frees_node_of_living_child`). `process_wait` writes to the node it has just freed. In a run without the
one and the other (`NodesKept`) every thread has its node for as long as it lives, nobody touches a freed node,
and no flag is cleared (`node_ownership`).
-/

namespace Asg1
namespace Process

/-! ## The condition -/

/-- `process_exit` starts to give a node back only when its thread has left. -/
def ReleasesGone (s : State) : Action → Prop
  | .run p => (s.thread p).pc = .exitChildren → ∀ b ∈ (s.thread p).childNodes.take 1, ∀ q ∈ s.allList,
      (s.thread q).tidNode ≠ some b
  | _ => True

/-- At the `free` of `process_wait`. -/
def Pc.waitReaps : Pc → Bool
  | .waitReap _ _ => true
  | _ => false

/-- No `process_wait` gets to its `free`. -/
def NeverReaps (s : State) : Action → Prop
  | .run p => (s.thread p).pc.waitReaps = false
  | _ => True

/-- The condition under which nodes are kept for as long as they are used. -/
def NodesKept (s : State) (a : Action) : Prop := LeavesUnread s a ∧ ReleasesGone s a ∧ NeverReaps s a

instance (s : State) : (a : Action) → Decidable (ReleasesGone s a)
  | .run _ => inferInstanceAs (Decidable (_ → ∀ b ∈ _, ∀ q ∈ _, _ ≠ _))
  | .exec .. | .execFail .. | .load .. | .exit .. | .kill .. | .wait .. | .scribblePage .. | .scribbleBlock .. =>
    isTrue trivial

instance (s : State) : (a : Action) → Decidable (NeverReaps s a)
  | .run _ => inferInstanceAs (Decidable (_ = false))
  | .exec .. | .execFail .. | .load .. | .exit .. | .kill .. | .wait .. | .scribblePage .. | .scribbleBlock .. =>
    isTrue trivial

instance (s : State) (a : Action) : Decidable (NodesKept s a) := inferInstanceAs (Decidable (_ ∧ _ ∧ _))

/-! ## The invariant -/

/-- Every thread on the list has its node, and no freed node has been touched. -/
structure OwnInv (s : State) : Prop where
  owned : ∀ q ∈ s.allList, ∀ b, (s.thread q).tidNode = some b → s.allocated b = true
  freeing : ∀ p ∈ s.allList, ∀ b, (s.thread p).pc = .exitFree b → ∀ q ∈ s.allList, (s.thread q).tidNode ≠ some b
  unmarked : ∀ p ∈ s.allList, (s.thread p).pc.marking = none
  no_stray : ∀ p, .strayNode p ∉ s.log

/-- Nothing is allocated or freed, and no thread comes near a `free` or a freed node. -/
structure Calm (s s' : State) : Prop where
  allList : s'.allList = s.allList
  allocated : s'.allocated = s.allocated
  tidNode : ∀ q ∈ s.allList, (s'.thread q).tidNode = (s.thread q).tidNode
  freeing : ∀ q ∈ s.allList, ∀ b, (s'.thread q).pc = .exitFree b →
    (s.thread q).pc = .exitFree b ∨ ∀ r ∈ s.allList, (s.thread r).tidNode ≠ some b
  marking : ∀ q ∈ s.allList, (s.thread q).pc.marking = none → (s'.thread q).pc.marking = none
  log : ∀ p, .strayNode p ∈ s'.log → .strayNode p ∈ s.log

variable {p b page : Addr} {a : Action} {s s' : State}

theorem OwnInv.calm (h : OwnInv s) (hc : Calm s s') : OwnInv s' := by
  obtain ⟨hlist, halloc, hnode, hfreeing, hmarking, hlog⟩ := hc
  constructor
  case owned =>
    intro q hq b hb
    rw [hlist] at hq
    rw [halloc]
    exact h.owned q hq b ((hnode q hq).symm.trans hb)
  case freeing => grind [h.freeing]
  case unmarked => grind [h.unmarked]
  case no_stray => exact fun p hp => h.no_stray p (hlog p hp)

namespace Calm

variable {s s' s'' : State}

theorem refl (s : State) : Calm s s :=
  ⟨rfl, rfl, fun _ _ => rfl, fun _ _ _ h => .inl h, fun _ _ h => h, fun _ h => h⟩

theorem trans (h : Calm s s') (h' : Calm s' s'') : Calm s s'' := by
  obtain ⟨hlist, halloc, hnode, hfreeing, hmarking, hlog⟩ := h
  obtain ⟨hlist', halloc', hnode', hfreeing', hmarking', hlog'⟩ := h'
  constructor <;> grind

theorem emit (s : State) {e : Event} (he : ∀ p, e ≠ .strayNode p) : Calm s (s.emit e) :=
  ⟨rfl, rfl, fun _ _ => rfl, fun _ _ _ h => .inl h, fun _ _ h => h, by grind⟩

theorem touch (hb : s.allocated b = true) : Calm s (s.touch p b) := by
  rw [State.touch_of_allocated s p b hb]
  exact refl s

theorem setNode (s : State) (b : Addr) (N : TidStatus) : Calm s (s.setNode b N) :=
  ⟨rfl, rfl, fun _ _ => rfl, fun _ _ _ h => .inl h, fun _ _ h => h, fun _ h => h⟩

/-- A thread keeps its node and goes on to a point where it frees nothing that is used. -/
theorem setThread {T : Thread} (hnode : T.tidNode = (s.thread p).tidNode)
    (hfree : ∀ b, T.pc = .exitFree b → (s.thread p).pc = .exitFree b ∨
      ∀ r ∈ s.allList, (s.thread r).tidNode ≠ some b)
    (hmark : T.pc.marking = none ∨ T.pc = (s.thread p).pc) : Calm s (s.setThread p T) := by
  refine ⟨rfl, rfl, ?_, ?_, ?_, fun _ h => h⟩ <;> grind

theorem goto {pc : Pc} (hfree : ∀ b, pc ≠ .exitFree b) (hmark : pc.marking = none) : Calm s (s.goto p pc) :=
  setThread rfl (fun b hb => absurd hb (hfree b)) (.inl hmark)

theorem peek (s : State) (p q : Addr) (ok : Bool) : Calm s (s.peek p q ok) := by
  unfold State.peek
  split
  · exact refl s
  · exact emit s (fun p heq => by cases heq)

theorem scribblePage (h : page ∉ s.allList) (T : Thread) : Calm s (s.setThread page T) := by
  refine ⟨rfl, rfl, ?_, ?_, ?_, fun _ h => h⟩ <;> grind

theorem touchNodes (nodes : List Addr) (h : ∀ b ∈ nodes, s.allocated b = true) : Calm s (touchNodes s p nodes) := by
  unfold Process.touchNodes
  induction nodes generalizing s with
  | nil => exact refl s
  | cons b nodes ih =>
    have hb := State.touch_of_allocated s p b (h b List.mem_cons_self)
    rw [List.foldl_cons, hb]
    exact ih (fun x hx => h x (List.mem_cons_of_mem b hx))

end Calm

/-! ## Every step -/

section
variable {s s' : State}

theorem OwnInv.create (h : OwnInv s) (hexec : ExecInv s) {block : Addr} (hat : At s p .user)
    (hblock : s.allocated block = false) : OwnInv (processExecute s p page block) := by
  -- the node being freed is allocated, the new one was not
  have hfree : ∀ q ∈ s.allList, (s.thread q).pc ≠ .exitFree block := by
    intro q hq hpc
    have hb := hexec.mem_of_reaping hq (show (s.thread q).pc.reaping = some block by rw [hpc]; rfl)
    cases hblock.symm.trans (hexec.held_allocated q hq block (mem_held_of_childNodes hb))
  constructor
  case owned => grind [h.owned]
  case freeing => grind [h.freeing]
  case unmarked => grind [h.unmarked]
  case no_stray => exact h.no_stray

theorem OwnInv.exitFree (h : OwnInv s) (hp : p ∈ s.allList) (hpc : (s.thread p).pc = .exitFree b) :
    OwnInv ((s.setThread p { s.thread p with
      childNodes := (s.thread p).childNodes.erase b, pc := .exitChildren }).free b) := by
  have hcalm : Calm s (s.setThread p { s.thread p with
      childNodes := (s.thread p).childNodes.erase b, pc := .exitChildren }) :=
    Calm.setThread rfl (fun x hx => by cases hx) (.inl rfl)
  have h₁ := h.calm hcalm
  refine { h₁ with owned := ?_ }
  intro q hq x hx
  have hxb : x ≠ b := by
    rintro rfl
    rw [State.free_thread, hcalm.tidNode q hq] at hx
    exact h.freeing p hp x hpc q hq hx
  rw [State.free_allocated, if_neg hxb]
  exact h₁.owned q hq x hx

theorem OwnInv.leave (h : OwnInv s) (p : Addr) : OwnInv { s with allList := s.allList.filter (· ≠ p) } := by
  have hmem : ∀ {q}, q ∈ s.allList.filter (· ≠ p) → q ∈ s.allList := fun hq => (List.mem_filter.mp hq).1
  exact ⟨fun q hq => h.owned q (hmem hq), fun q hq b hb r hr => h.freeing q (hmem hq) b hb r (hmem hr),
    fun q hq => h.unmarked q (hmem hq), h.no_stray⟩

theorem Calm.executeReturn (s : State) (p : Addr) (tid result : Int) (nodes : List Addr) :
    Calm s (executeReturn s p tid result nodes) := by
  refine Calm.trans (Calm.setThread (p := p) (T := { s.thread p with
    pc := .user, making := none, childNodes := nodes }) rfl ?_ (.inl rfl)) (Calm.emit _ ?_)
  · intro b hb
    cases hb
  · intro q hq
    cases hq

theorem Calm.wait (hnode : NodeInv s) (hp : p ∈ s.allList) (tid : Int) : Calm s (processWait s p tid) := by
  have hal : ∀ b ∈ searched s (s.thread p).childNodes tid, s.allocated b = true := by
    intro b hb
    refine hnode.held p hp b (mem_held_of_childNodes ?_)
    rcases List.mem_append.mp hb with hb | hb
    · exact (List.takeWhile_sublist _).subset hb
    · cases hf : findChild s (s.thread p).childNodes tid with
      | none => rw [hf] at hb; cases hb
      | some x =>
        rw [hf] at hb
        rw [List.mem_singleton.mp hb]
        exact List.mem_of_find?_eq_some hf
  have htouch := Calm.touchNodes (p := p) _ hal
  unfold processWait
  simp only
  split
  · exact htouch.trans (Calm.emit _ (fun p heq => by cases heq))
  · split
    · exact htouch.trans (Calm.emit _ (fun p heq => by cases heq))
    · exact htouch.trans (Calm.goto (fun b heq => by cases heq) rfl)

theorem Calm.exitW (h : OwnInv s) (hp : p ∈ s.allList) (status : Int) : Calm s (exitW s p status) := by
  obtain ⟨s₂, heq, hs₂⟩ := exitW_stores s p status
  rw [heq]
  refine Calm.trans ?_ (Calm.goto (fun b heq => by cases heq) rfl)
  have hcall : Calm s (s.emit (.exitCall (s.thread p).tid status)) := Calm.emit s (fun p heq => by cases heq)
  have hstore : Calm s s₂ := by
    rcases hs₂ with rfl | ⟨b, hb, rfl⟩
    · exact hcall
    · exact (hcall.trans (Calm.setNode _ _ _)).trans (Calm.touch (h.owned p hp b hb))
  split
  · exact hstore.trans (Calm.emit _ (fun p heq => by cases heq))
  · exact hstore

theorem Calm.settleStatus (hb : s.allocated b = true) : Calm s (settleStatus s p b) := by
  unfold Process.settleStatus
  rw [State.touch_of_allocated s p b hb]
  refine Calm.trans ?_ (Calm.goto (fun b heq => by cases heq) rfl)
  split
  · exact (Calm.setNode s b _).trans (Calm.emit _ (fun p heq => by cases heq))
  · exact Calm.refl s

theorem OwnInv.run (h : OwnInv s) (hnode : NodeInv s) (hexec : ExecInv s) (hp : p ∈ s.allList)
    (hstep : runPc s p (s.thread p).pc = some s') (hgone : ReleasesGone s (.run p))
    (hreap : NeverReaps s (.run p)) : OwnInv s' := by
  have hok := hexec.pc_ok p hp
  simp only [ReleasesGone, NeverReaps] at hgone hreap
  have hmark := h.unmarked p hp
  generalize hpc : (s.thread p).pc = pc at hstep hgone hreap hmark
  have hown : ∀ {b}, (s.thread p).tidNode = some b → s.touch p b = s :=
    fun hb => State.touch_of_allocated s p _ (h.owned p hp _ hb)
  have hgoto : ∀ {s₁ : State} {pc : Pc}, Calm s s₁ → (∀ b, pc ≠ .exitFree b) → pc.marking = none →
      OwnInv (s₁.goto p pc) := fun hc hf hm => h.calm (hc.trans (Calm.goto hf hm))
  have hran := ran_of_runPc hstep
  cases hran <;> simp only [PcOk, hpc] at hok
  case lost | created | disowned => exact hgoto (Calm.refl s) (by rintro b ⟨⟩) rfl
  case setLoaded ok b hb =>
    refine hgoto ?_ (by rintro b ⟨⟩) rfl
    unfold storeLoaded
    split
    · exact Calm.setNode s _ _
    · exact Calm.refl s
  case loaded ok _ => exact h.calm (Calm.setThread rfl (by rintro b ⟨⟩) (.inl rfl))
  case unloaded ok _ =>
    refine (h.calm ?_).calm (Calm.emit _ (by rintro p ⟨⟩))
    exact Calm.setThread rfl (by rintro b ⟨⟩) (.inl rfl)
  case missed | checked | refused => exact h.calm (Calm.executeReturn s p _ _ _)
  case found | passed | next | strayed | readNode | noNode =>
    exact hgoto (Calm.peek s p _ _) (by rintro b ⟨⟩) rfl
  case downLoad tid c b hsema =>
    refine hgoto ((Calm.peek s p c _).trans (Calm.setThread ?_ ?_ ?_)) (by rintro b ⟨⟩) rfl <;> grind
  case waitDown tid b hsema =>
    rw [hnode.touch_child hp hok.2]
    exact hgoto (Calm.setNode s b _) (by rintro b ⟨⟩) rfl
  case waitReap tid b => cases hreap
  case waitMark tid b r => cases hmark
  case exitStatus b hb => exact h.calm (Calm.settleStatus (h.owned p hp b hb))
  case exitChildren own hb =>
    rcases hnode.releaseChild_eq own hp (fun b hb q hq hqb => absurd hqb (hgone rfl b hb q hq)) with
      heq | ⟨b, hb, heq, -⟩ <;> rw [heq]
    · exact hgoto (Calm.refl s) (by rintro b ⟨⟩) rfl
    · exact h.calm (Calm.setThread rfl (by rintro x ⟨⟩; exact .inr (hgone rfl b hb)) (.inl rfl))
  case exitFree b =>
    rw [hnode.touch_child hp hok.2]
    exact h.exitFree hp hpc
  case exitChild b hb _ | exitUp b hb =>
    rw [hown hb]
    exact hgoto (Calm.setNode s b _) (by rintro b ⟨⟩) rfl
  case leave => exact h.leave p

theorem OwnInv.step (h : OwnInv s) (hnode : NodeInv s) (hexec : ExecInv s)
    (hguard : NodesKept s a) (hstep : step s a = some s') : OwnInv s' := by
  cases steps_of_step hstep with
  | exec hat hpage hblock => exact h.create hexec hat hblock
  | execFail hat => exact h.calm (Calm.emit s (by rintro p ⟨⟩))
  | load ok hat => exact h.calm (Calm.trans (Calm.goto (by rintro b ⟨⟩) rfl) (Calm.emit _ (by rintro p ⟨⟩)))
  | exit status hat => exact h.calm (Calm.exitW h hat.1 status)
  | kill hat => exact h.calm (Calm.trans (Calm.goto (by rintro b ⟨⟩) rfl) (Calm.emit _ (by rintro p ⟨⟩)))
  | wait tid hat => exact h.calm (Calm.wait hnode hat.1 tid)
  | run hp hrun => exact h.run hnode hexec hp hrun hguard.2.1 hguard.2.2
  | scribblePage T hpage => exact h.calm (Calm.scribblePage hpage T)
  | @scribbleBlock block N hblock => exact h.calm (Calm.setNode s block N)

theorem ownInv_init : OwnInv init := by
  constructor
  case owned =>
    intro q hq b hb
    rcases mem_init hq with rfl | rfl
    · cases hb
    · cases hb; rfl
  case freeing => intro p hp b hpc; rcases mem_init hp with rfl | rfl <;> cases hpc
  case unmarked => intro p hp; rcases mem_init hp with rfl | rfl <;> rfl
  case no_stray => intro p hp; cases hp

/-- The three invariants together, and the conditions of the second follow from `NodesKept`. -/
theorem kept_step (h : ExecInv s ∧ NodeInv s ∧ OwnInv s) (hguard : NodesKept s a)
    (hstep : step s a = some s') : ExecInv s' ∧ NodeInv s' ∧ OwnInv s' := by
  obtain ⟨hexec, hnode, hown⟩ := h
  have hdone : ReleasesDone s a := by
    cases a with
    | run p => exact fun hpc b hb q hq hqb => absurd hqb (hguard.2.1 hpc b hb q hq)
    | _ => trivial
  have hreuse : ReusesUnmarked s a := by
    cases a with
    | exec p page block =>
      intro q hq hm
      rw [hown.unmarked q hq] at hm
      cases hm
    | _ => trivial
  exact ⟨hexec.step hguard.1 hstep, hnode.step hexec hguard.1 hdone hreuse hstep,
    hown.step hnode hexec hguard hstep⟩

end

/-! ## The result -/

/-- Every thread that is there and has `tid_node_exists` set points to a node that has not been freed, and
    `exit_w`, `process_exit` and `process_wait` have touched no freed node. -/
def OwnedNodes (s : State) : Prop :=
  (∀ q ∈ s.allList, (s.thread q).tidNodeExists = true → ∀ b, (s.thread q).tidNode = some b →
    s.allocated b = true) ∧ ∀ p, .strayNode p ∉ s.log

/-- A step of the loop over `child_nodes` leaves the thread's own flag alone, and when it has freed a node, no
    thread that is still there has that node and its flag set. -/
def ExitClears (s : State) (a : Action) (s' : State) : Prop :=
  ∀ p, a = .run p → ((s.thread p).pc = .exitChildren ∨ ∃ b, (s.thread p).pc = .exitFree b) →
    (s'.thread p).tidNodeExists = (s.thread p).tidNodeExists ∧
    ∀ b, (s.thread p).pc = .exitFree b → ∀ q ∈ s'.allList, (s'.thread q).tidNode = some b →
      (s'.thread q).tidNodeExists = false

theorem OwnInv.exitClears (h : OwnInv s) (hnode : NodeInv s)
    (hguard : NodesKept s a) (hstep : Process.step s a = some s') : ExitClears s a s' := by
  rintro p rfl hpc
  simp only [Process.step] at hstep
  split at hstep
  · rename_i hp
    rcases hpc with hpc | ⟨b, hpc⟩
    · refine ⟨?_, fun b hb => by rw [hpc] at hb; cases hb⟩
      rw [hpc] at hstep
      simp only [runPc] at hstep
      split at hstep <;> cases hstep
      · simp
      · rename_i own _
        rcases hnode.releaseChild_eq own hp (fun b hb q hq hqb => absurd hqb (hguard.2.1 hpc b hb q hq)) with
          heq | ⟨b, -, heq, -⟩ <;> rw [heq] <;> simp
    · rw [hpc] at hstep
      cases hstep
      refine ⟨by simp, ?_⟩
      intro x hx q hq hqx
      rw [hpc] at hx
      cases hx
      -- nobody on the list has the node
      refine absurd ?_ (h.freeing p hp b hpc q (by simpa using hq))
      by_cases hqp : q = p
      · rw [hqp] at hqx ⊢
        simpa using hqx
      · simpa [hqp] using hqx
  · cases hstep

/-- **Ownership of nodes.** In every run in which no thread leaves while it is still read, `process_exit` gives
    back nodes of gone threads only, and no `process_wait` gets to its `free`, every reachable state has
    `OwnedNodes` and every further such step has `ExitClears`. -/
theorem node_ownership {s : State} (h : Lts.Reaches step NodesKept init s) :
    OwnedNodes s ∧ ∀ a s', NodesKept s a → step s a = some s' → ExitClears s a s' := by
  obtain ⟨_, hnode, hown⟩ := h.invariant (I := fun s => ExecInv s ∧ NodeInv s ∧ OwnInv s)
    ⟨execInv_init, nodeInv_init, ownInv_init⟩ (fun hinv hguard hstep => kept_step hinv hguard hstep)
  exact ⟨⟨fun q hq _ b hb => hown.owned q hq b hb, hown.no_stray⟩,
    fun a s' hguard hstep => hown.exitClears hnode hguard hstep⟩

/-- The main thread starts A (tid 3), which starts B (tid 4); both are running. -/
def twoLevels : List Action :=
  [.exec 0 2 1, .load 2 true, .run 2, .run 2] ++ List.replicate 9 (.run 0) ++
  [.exec 2 3 2, .load 3 true, .run 3, .run 3] ++ List.replicate 11 (.run 2)

/-- B exits and leaves; then A exits, frees the node of B and leaves. -/
def childFirst : List Action :=
  twoLevels ++ [.exit 3 0] ++ List.replicate 5 (.run 3) ++ [.exit 2 0] ++ List.replicate 7 (.run 2)

theorem node_ownership_childFirst :
    ∃ s, Lts.run step NodesKept init childFirst = some s ∧ s.allList = [0, 1] ∧ s.allocated 2 = false ∧
      OwnedNodes s := by
  refine ⟨_, rfl, by decide, by decide, ?_⟩
  exact (node_ownership (Lts.reaches_of_run childFirst Lts.Reaches.refl rfl)).1

/-- **A parent that exits first frees the node of its living child**: B is still there, its flag is set, and its
    node has been freed. The flag that was cleared is the parent's own. -/
theorem parent_frees_node_of_living_child :
    ∃ s, Lts.Reaches step (fun _ _ => True) init s ∧ 3 ∈ s.allList ∧ (s.thread 3).tidNodeExists = true ∧
      (s.thread 3).tidNode = some 2 ∧ s.allocated 2 = false ∧ (s.thread 2).tidNodeExists = false ∧
      ¬ OwnedNodes s := by
  have hrun : ∃ s, Lts.run step (fun _ _ => True) init (twoLevels ++ [.exit 2 0, .run 2, .run 2, .run 2]) = some s ∧
      3 ∈ s.allList ∧ (s.thread 3).tidNodeExists = true ∧ (s.thread 3).tidNode = some 2 ∧
      s.allocated 2 = false ∧ (s.thread 2).tidNodeExists = false :=
    ⟨_, rfl, by decide, by decide, by decide, by decide, by decide⟩
  obtain ⟨s, hs, hmem, hflag, hnode, hfree, hown⟩ := hrun
  refine ⟨s, Lts.reaches_of_run _ Lts.Reaches.refl hs, hmem, hflag, hnode, hfree, hown, ?_⟩
  intro hgood
  have hal := hgood.1 3 hmem hflag 2 hnode
  rw [hfree] at hal
  cases hal

end Process
end Asg1

import Asg1.Process.Exec

/-!
# `Process.NodeInv` — the invariant on the children's side

A thread uses its `tid_status` node until `process_exit` has raised the node's semaphore. As long as that lasts
the node is allocated, no other thread uses it, and it points to its thread; afterwards the pointer is NULL and
the semaphore is up, until the parent takes it down. Three conditions keep this true: threads leave unread
(`LeavesUnread`), `process_exit` gives back a node only when its thread has signalled (`ReleasesDone`), and no
block becomes a new node while a `process_wait` has still to write there (`ReusesUnmarked`).
-/

namespace Asg1
namespace Process

/-! ## The invariant on the children's side -/

/-- Thread `q` may still touch node `b`, its own. -/
@[grind =] def Uses (s : State) (q b : Addr) : Prop :=
  q ∈ s.allList ∧ (s.thread q).tidNode = some b ∧ (s.thread q).pc ≠ .leave

/-- The node that is about to be freed. -/
@[grind =] def Pc.reaping : Pc → Option Addr
  | .waitReap _ b | .exitFree b => some b
  | _ => none

/-- The node that has been freed and is about to be marked. -/
@[grind =] def Pc.marking : Pc → Option Addr
  | .waitMark _ b _ => some b
  | _ => none

/-- A thread that uses a node is known there, with its flag set and the semaphore down; a node that is not used
    any more has lost its pointer and has its semaphore up. -/
structure NodeInv (s : State) : Prop where
  held : ∀ p ∈ s.allList, ∀ b ∈ (s.thread p).held, s.allocated b = true
  allocated : ∀ q b, Uses s q b → s.allocated b = true
  inj : ∀ q r b, Uses s q b → Uses s r b → q = r
  tid : ∀ q b, Uses s q b → (s.node b).tid = (s.thread q).tid
  flag : ∀ q b, Uses s q b → (s.thread q).tidNodeExists = true
  child : ∀ q b, Uses s q b → (s.node b).child = if (s.thread q).pc = .exitUp then none else some q
  sema : ∀ q b, Uses s q b → (s.node b).sema = 0
  done : ∀ p ∈ s.allList, ∀ b ∈ (s.thread p).held, (∀ q, ¬ Uses s q b) →
    (s.node b).child = none ∧ (0 < (s.node b).sema ∨ ∃ t, (s.thread p).pc = .waitReap t b)
  reaping : ∀ p ∈ s.allList, ∀ b, (s.thread p).pc.reaping = some b → ∀ q, ¬ Uses s q b
  marking : ∀ p ∈ s.allList, ∀ b, (s.thread p).pc.marking = some b → s.allocated b = false

/-! ## Changes the invariant does not speak of -/

/-- Threads keep everything but `load_sema`, and nodes keep their tid, pointer and semaphore. -/
structure Soft (s s' : State) : Prop where
  allList : s'.allList = s.allList
  allocated : s'.allocated = s.allocated
  thread : ∀ q ∈ s.allList, ∃ n, s'.thread q = { s.thread q with loadSema := n }
  node : ∀ b, s.allocated b = true → (s'.node b).tid = (s.node b).tid ∧
    (s'.node b).child = (s.node b).child ∧ (s'.node b).sema = (s.node b).sema

namespace Soft

variable {s s' s'' : State}

theorem refl (s : State) : Soft s s :=
  ⟨rfl, rfl, fun q _ => ⟨(s.thread q).loadSema, rfl⟩, fun _ _ => ⟨rfl, rfl, rfl⟩⟩

theorem trans (h : Soft s s') (h' : Soft s' s'') : Soft s s'' := by
  obtain ⟨hlist, halloc, hthread, hnode⟩ := h
  obtain ⟨hlist', halloc', hthread', hnode'⟩ := h'
  constructor <;> grind

theorem emit (s : State) (e : Event) : Soft s (s.emit e) :=
  ⟨rfl, rfl, fun q _ => ⟨(s.thread q).loadSema, rfl⟩, fun _ _ => ⟨rfl, rfl, rfl⟩⟩

theorem touch (s : State) (p b : Addr) : Soft s (s.touch p b) := by
  unfold State.touch
  split
  · exact refl s
  · exact emit s _

theorem touchNodes (s : State) (p : Addr) (nodes : List Addr) : Soft s (touchNodes s p nodes) := by
  induction nodes generalizing s with
  | nil => exact refl s
  | cons b nodes ih => exact (touch s p b).trans (ih _)

variable {b : Addr}

theorem setNode (s : State) {N : TidStatus} (ht : N.tid = (s.node b).tid)
    (hc : N.child = (s.node b).child) (hs : N.sema = (s.node b).sema) : Soft s (s.setNode b N) :=
  ⟨rfl, rfl, fun q _ => ⟨(s.thread q).loadSema, rfl⟩, by grind⟩

theorem storeLoaded (s : State) (b : Addr) (ok : Bool) : Soft s (storeLoaded s b ok) := by
  unfold Process.storeLoaded
  split
  · exact setNode s rfl rfl rfl
  · exact refl s

theorem setSema (s : State) (q : Addr) (n : Nat) : Soft s (s.setThread q { s.thread q with loadSema := n }) := by
  refine ⟨rfl, rfl, fun x _ => ?_, fun _ _ => ⟨rfl, rfl, rfl⟩⟩
  by_cases hx : x = q
  · exact ⟨n, by simp [hx]⟩
  · exact ⟨_, if_neg hx⟩

theorem scribblePage {page : Addr} (h : page ∉ s.allList) (T : Thread) : Soft s (s.setThread page T) :=
  ⟨rfl, rfl, fun _ hx => ⟨_, if_neg (by rintro rfl; exact h hx)⟩, fun _ _ => ⟨rfl, rfl, rfl⟩⟩

theorem scribbleBlock {block : Addr} (h : s.allocated block = false) (N : TidStatus) : Soft s (s.setNode block N) :=
  ⟨rfl, rfl, fun q _ => ⟨(s.thread q).loadSema, rfl⟩, by grind⟩

variable {q : Addr}

theorem uses_iff (h : Soft s s') : Uses s' q b ↔ Uses s q b := by
  grind [h.allList, h.thread]

end Soft

variable {s s' : State}

theorem NodeInv.soft (h : NodeInv s) (hs : Soft s s') : NodeInv s' := by
  have huses : ∀ q b, Uses s' q b ↔ Uses s q b := fun q b => hs.uses_iff
  have halloc := congrFun hs.allocated
  have hal := h.allocated
  obtain ⟨hlist, -, hthread, hnode⟩ := hs
  constructor
  case held => grind [h.held]
  case allocated => grind [h.allocated]
  case inj => grind [h.inj]
  case tid => grind [h.tid]
  case flag => grind [h.flag]
  case child => grind [h.child]
  case sema => grind [h.sema]
  case done => grind [h.done, h.held]
  case reaping => grind [h.reaping]
  case marking => grind [h.marking]

/-! ## One thread moves on -/

/-- The use of the thread's own node comes to its end. -/
@[grind =] def Pc.ending : Pc → Bool
  | .exitUp | .leave => true
  | _ => false

/-- Points that neither start nor end the use of a node. -/
@[grind =] def Pc.smooth (pc : Pc) : Bool := !pc.ending && pc.reaping.isNone

variable {pc : Pc}

theorem Pc.smooth_iff : pc.smooth = true ↔ pc.ending = false ∧ pc.reaping = none := by
  simp [Pc.smooth]

variable {p : Addr}

/-- A thread goes on without taking or giving back nodes. -/
theorem NodeInv.move (h : NodeInv s) {T : Thread} (htid : T.tid = (s.thread p).tid)
    (hnode : T.tidNode = (s.thread p).tidNode) (hflag : T.tidNodeExists = (s.thread p).tidNodeExists)
    (hheld : p ∈ s.allList → ∀ b ∈ T.held, b ∈ (s.thread p).held)
    (huse : (s.thread p).tidNode = none ∨ ((s.thread p).pc.ending = false ∧ T.pc.ending = false))
    (hold : (s.thread p).pc.reaping = none) (hnew : ∀ b, T.pc.reaping = some b → ∀ q, ¬ Uses s q b)
    (hmark : T.pc.marking = none) : NodeInv (s.setThread p T) := by
  have huses : ∀ q b, Uses (s.setThread p T) q b ↔ Uses s q b := by grind
  constructor
  case held => grind [h.held]
  case allocated => grind [h.allocated]
  case inj => grind [h.inj]
  case tid => grind [h.tid]
  case flag => grind [h.flag]
  case child => grind [h.child]
  case sema => grind [h.sema]
  case done => grind [h.done]
  case reaping => grind [h.reaping]
  case marking => grind [h.marking]

theorem NodeInv.goto (h : NodeInv s) (hold : (s.thread p).pc.smooth = true)
    (hnew : pc.smooth = true) (hmark : pc.marking = none) : NodeInv (s.goto p pc) := by
  obtain ⟨he, hr⟩ := Pc.smooth_iff.mp hold
  obtain ⟨he', hr'⟩ := Pc.smooth_iff.mp hnew
  refine h.move rfl rfl rfl (fun _ _ hb => hb) (.inr ⟨he, he'⟩) hr ?_ hmark
  intro b hb
  rw [hr'] at hb
  cases hb

/-! ## A node is used, signalled and freed -/

/-- `cur->tid_node->child = NULL;` -/
theorem NodeInv.clearChild (h : NodeInv s) (hp : p ∈ s.allList)
    (hpc : (s.thread p).pc = .exitChild) (hb : (s.thread p).tidNode = some b) :
    NodeInv ((s.setNode b { s.node b with child := none }).goto p .exitUp) := by
  have hpb : Uses s p b := ⟨hp, hb, by rw [hpc]; intro heq; cases heq⟩
  have huses : ∀ q x, Uses ((s.setNode b { s.node b with child := none }).goto p .exitUp) q x ↔ Uses s q x := by grind
  constructor
  case held => grind [h.held]
  case allocated => grind [h.allocated]
  case inj => grind [h.inj]
  case tid => grind [h.tid]
  case flag => grind [h.flag]
  case child =>
    -- nobody but `p` uses `b`
    grind [h.child, h.inj]
  case sema => grind [h.sema]
  case done => grind [h.done]
  case reaping => grind [h.reaping]
  case marking => grind [h.marking]

/-- `sema_up(&cur->tid_node->sema);`: the thread uses its node no more. -/
theorem NodeInv.signal (h : NodeInv s) (hp : p ∈ s.allList)
    (hpc : (s.thread p).pc = .exitUp) (hb : (s.thread p).tidNode = some b) :
    NodeInv ((s.setNode b { s.node b with sema := (s.node b).sema + 1 }).goto p .leave) := by
  have hpb : Uses s p b := ⟨hp, hb, by rw [hpc]; intro heq; cases heq⟩
  have hchild : (s.node b).child = none := by grind [h.child]
  -- a node used by another thread is another node
  have hne : ∀ q, Uses s q b → q = p := fun q hu => h.inj q p b hu hpb
  have huses : ∀ q x, Uses ((s.setNode b { s.node b with sema := (s.node b).sema + 1 }).goto p .leave) q x ↔
      Uses s q x ∧ q ≠ p := by grind
  constructor
  case held => grind [h.held]
  case allocated => grind [h.allocated]
  case inj => grind [h.inj]
  case tid => grind [h.tid]
  case flag => grind [h.flag]
  case child => grind [h.child]
  case sema => grind [h.sema]
  case done => grind [h.done]
  case reaping => grind [h.reaping]
  case marking => grind [h.marking]

/-- `sema_down(&child_tid_node->sema);` gets through only when the thread has signalled. -/
theorem NodeInv.down (h : NodeInv s) (hheld : Held s) {t : Int} (hp : p ∈ s.allList)
    (hpc : (s.thread p).pc = .waitDown t b) (hb : b ∈ (s.thread p).childNodes) (hsema : (s.node b).sema ≠ 0) :
    NodeInv ((s.setNode b { s.node b with sema := (s.node b).sema - 1 }).goto p (.waitReap t b)) := by
  have hno : ∀ q, ¬ Uses s q b := fun q hu => hsema (h.sema q b hu)
  -- the holder of `b` is `p`, which reaps it now
  have hholder : ∀ q ∈ s.allList, b ∈ (s.thread q).held → q = p :=
    fun q hq hx => hheld.held_inj q hq p hp b hx (mem_held_of_childNodes hb)
  have huses : ∀ q x, Uses ((s.setNode b { s.node b with sema := (s.node b).sema - 1 }).goto p (.waitReap t b)) q x ↔
      Uses s q x := by grind
  constructor
  case held => grind [h.held]
  case allocated => grind [h.allocated]
  case inj => grind [h.inj]
  case tid => grind [h.tid]
  case flag => grind [h.flag]
  case child => grind [h.child]
  case sema => grind [h.sema]
  case done => grind [h.done]
  case reaping => grind [h.reaping]
  case marking => grind [h.marking]

/-- The node being reaped is freed. -/
theorem NodeInv.release (h : NodeInv s) (hp : p ∈ s.allList)
    (hpc : (s.thread p).pc.reaping = some b) (hnew : pc.smooth = true) (hmark : ∀ x, pc.marking = some x → x = b)
    (hheld : Held ((s.setThread p
      { s.thread p with childNodes := (s.thread p).childNodes.erase b, pc }).free b)) :
    NodeInv ((s.setThread p { s.thread p with childNodes := (s.thread p).childNodes.erase b, pc }).free b) := by
  set s' := (s.setThread p { s.thread p with childNodes := (s.thread p).childNodes.erase b, pc }).free b with hs'
  have hno := h.reaping p hp b hpc
  have huses : ∀ q x, Uses s' q x ↔ Uses s q x := by grind
  have hkept : ∀ q, ∀ x ∈ (s'.thread q).held, x ∈ (s.thread q).held := by grind [List.mem_of_mem_erase]
  have hal := hheld.held_allocated
  constructor
  case held => exact hal
  case allocated => grind [h.allocated]
  case inj => grind [h.inj]
  case tid => grind [h.tid]
  case flag => grind [h.flag]
  case child => grind [h.child]
  case sema => grind [h.sema]
  case done => grind [h.done]
  case reaping => grind [h.reaping]
  case marking => grind [h.marking]

theorem NodeInv.leave (h : NodeInv s) (hpc : (s.thread p).pc = .leave) :
    NodeInv { s with allList := s.allList.filter (· ≠ p) } := by
  have hmem : ∀ {q}, q ∈ s.allList.filter (· ≠ p) → q ∈ s.allList := List.mem_of_mem_filter
  have huses : ∀ {q b}, Uses { s with allList := s.allList.filter (· ≠ p) } q b ↔ Uses s q b := by grind
  constructor
  case held => exact fun q hq => h.held q (hmem hq)
  case allocated => exact fun q x hu => h.allocated q x (huses.mp hu)
  case inj => exact fun q r x hq hr => h.inj q r x (huses.mp hq) (huses.mp hr)
  case tid => exact fun q x hu => h.tid q x (huses.mp hu)
  case flag => exact fun q x hu => h.flag q x (huses.mp hu)
  case child => exact fun q x hu => h.child q x (huses.mp hu)
  case sema => exact fun q x hu => h.sema q x (huses.mp hu)
  case done => exact fun q hq x hx hno => h.done q (hmem hq) x hx (fun r hr => hno r (huses.mpr hr))
  case reaping => exact fun q hq x hx r hr => h.reaping q (hmem hq) x hx r (huses.mp hr)
  case marking => exact fun q hq => h.marking q (hmem hq)

/-- A node that is about to be freed is on the list of the one who frees it. -/
theorem ExecInv.mem_of_reaping (h : ExecInv s) (hq : q ∈ s.allList)
    (hb : (s.thread q).pc.reaping = some b) : b ∈ (s.thread q).childNodes := by
  have hok := h.pc_ok q hq
  cases hpc : (s.thread q).pc <;> rw [hpc] at hb <;> cases hb <;> simp only [PcOk, hpc] at hok
  · exact hok.2
  · exact hok.2

/-- A new thread gets a node that nobody else uses or is about to mark. -/
theorem NodeInv.create (h : NodeInv s) (hexec : ExecInv s) {page block : Addr} (hat : At s p .user)
    (hpage : page ∉ s.allList) (hblock : s.allocated block = false)
    (hreuse : ∀ q ∈ s.allList, (s.thread q).pc.marking ≠ some block)
    (hheld : Held (processExecute s p page block)) : NodeInv (processExecute s p page block) := by
  obtain ⟨hp, hpc⟩ := hat
  have hpp : page ≠ p := by rintro rfl; exact hpage hp
  set s' := processExecute s p page block with hs'
  have huses : ∀ q x, Uses s' q x ↔ Uses s q x ∨ (q = page ∧ x = block) := by grind
  -- a node that was used or held before is not the new one
  have hal := h.allocated
  have hkept := h.held
  have hreap : ∀ q ∈ s.allList, (s.thread q).pc.reaping ≠ some block := by
    intro q hq hx
    cases hblock.symm.trans (hkept q hq block (mem_held_of_childNodes (hexec.mem_of_reaping hq hx)))
  constructor
  case held => exact hheld.held_allocated
  case allocated => grind
  case inj => grind [h.inj]
  case tid => grind [h.tid]
  case flag => grind [h.flag]
  case child => grind [h.child]
  case sema => grind [h.sema]
  case done =>
    intro q hq x hx hno
    have hxb : x ≠ block := by
      rintro rfl
      exact hno page ((huses page x).mpr (.inr ⟨rfl, rfl⟩))
    have hx' : x ∈ (s.thread q).held := by grind
    have hno' : ∀ r, ¬ Uses s r x := fun r hr => hno r ((huses r x).mpr (.inl hr))
    grind [h.done]
  case reaping => grind [h.reaping]
  case marking => grind [h.marking]

/-! ## Every step -/

/-- `process_exit` gives a node back only when its thread has signalled. -/
def ReleasesDone (s : State) : Action → Prop
  | .run p => (s.thread p).pc = .exitChildren → ∀ b ∈ (s.thread p).childNodes.take 1, ∀ q ∈ s.allList,
      (s.thread q).tidNode = some b → (s.thread q).pc = .leave
  | _ => True

/-- A new node is not put where some `process_wait` has still to write. -/
def ReusesUnmarked (s : State) : Action → Prop
  | .exec _ _ block => ∀ q ∈ s.allList, (s.thread q).pc.marking ≠ some block
  | _ => True

instance (s : State) : (a : Action) → Decidable (ReleasesDone s a)
  | .run _ => inferInstanceAs (Decidable (_ → ∀ b ∈ _, ∀ q ∈ _, _ → _))
  | .exec .. | .execFail .. | .load .. | .exit .. | .kill .. | .wait .. | .scribblePage .. | .scribbleBlock .. =>
    isTrue trivial

instance (s : State) : (a : Action) → Decidable (ReusesUnmarked s a)
  | .exec .. => inferInstanceAs (Decidable (∀ q ∈ _, _ ≠ _))
  | .run .. | .execFail .. | .load .. | .exit .. | .kill .. | .wait .. | .scribblePage .. | .scribbleBlock .. =>
    isTrue trivial

theorem Soft.exitW (p : Addr) (status : Int) : ∃ s₁, Soft s s₁ ∧ exitW s p status = s₁.goto p .exitStatus := by
  obtain ⟨s₂, heq, hs₂⟩ := exitW_stores s p status
  refine ⟨_, ?_, heq⟩
  have hstore : Soft s s₂ := by
    have hcall := Soft.emit s (.exitCall (s.thread p).tid status)
    rcases hs₂ with rfl | ⟨b, -, rfl⟩
    · exact hcall
    · refine (hcall.trans (Soft.setNode _ ?_ ?_ ?_)).trans (Soft.touch _ p _) <;> rfl
  split
  · exact hstore.trans (Soft.emit _ _)
  · exact hstore

theorem Soft.settleStatus (p b : Addr) : ∃ s₁, Soft s s₁ ∧ settleStatus s p b = s₁.goto p .exitChildren := by
  refine ⟨_, ?_, rfl⟩
  have htouch := Soft.touch s p b
  split
  · refine (htouch.trans (Soft.setNode _ ?_ ?_ ?_)).trans (Soft.emit _ _) <;> rw [State.touch_node]
  · exact htouch

theorem Soft.peek (s : State) (p q : Addr) (ok : Bool) : Soft s (s.peek p q ok) := by
  unfold State.peek
  split
  · exact Soft.refl s
  · exact Soft.emit s _

/-- A soft change, and then the thread goes on. -/
theorem NodeInv.soft_goto {s₁ : State} (h : NodeInv s) (hsoft : Soft s s₁) (hp : p ∈ s.allList)
    (hold : (s.thread p).pc.smooth = true) (hnew : pc.smooth = true) (hmark : pc.marking = none) :
    NodeInv (s₁.goto p pc) := by
  obtain ⟨n, hn⟩ := hsoft.thread p hp
  exact (h.soft hsoft).goto (by rw [hn]; exact hold) hnew hmark

theorem NodeInv.wait (h : NodeInv s) (hat : At s p .user) (tid : Int) : NodeInv (processWait s p tid) := by
  have hsoft := Soft.touchNodes s p (searched s (s.thread p).childNodes tid)
  unfold processWait
  simp only
  split
  · exact h.soft (hsoft.trans (Soft.emit _ _))
  · split
    · exact h.soft (hsoft.trans (Soft.emit _ _))
    · exact h.soft_goto hsoft hat.1 (by rw [hat.2]; rfl) rfl rfl

/-- `process_execute` returns. -/
theorem NodeInv.executeReturn (h : NodeInv s) {tid result : Int} {nodes : List Addr}
    (hold : (s.thread p).pc.smooth = true) (hnodes : ∀ b ∈ nodes, b ∈ (s.thread p).held) :
    NodeInv (executeReturn s p tid result nodes) := by
  obtain ⟨he, hr⟩ := Pc.smooth_iff.mp hold
  refine NodeInv.soft (h.move (T := { s.thread p with pc := .user, making := none, childNodes := nodes })
    rfl rfl rfl ?_ (.inr ⟨he, rfl⟩) hr ?_ rfl) (Soft.emit _ _)
  · intro _ b hb
    exact hnodes b (by simpa [Thread.held] using hb)
  · intro b hb
    cases hb

theorem NodeInv.touch_child (h : NodeInv s) (hp : p ∈ s.allList) (hb : b ∈ (s.thread p).childNodes) : s.touch p b = s :=
  State.touch_of_allocated s p b (h.held p hp b (mem_held_of_childNodes hb))

/-- One round of the loop over `child_nodes`: the node to be given back is not used any more, so the pointer in
    it is NULL. -/
theorem NodeInv.releaseChild_eq (h : NodeInv s) (own : Addr) (hp : p ∈ s.allList)
    (hdone : ∀ b ∈ (s.thread p).childNodes.take 1, ∀ q ∈ s.allList,
      (s.thread q).tidNode = some b → (s.thread q).pc = .leave) :
    releaseChild s p own = s.goto p .exitChild ∨ ∃ b ∈ (s.thread p).childNodes.take 1,
      releaseChild s p own = s.goto p (.exitFree b) ∧ ∀ q, ¬ Uses s q b := by
  unfold Process.releaseChild
  cases hnodes : (s.thread p).childNodes with
  | nil => exact .inl rfl
  | cons b rest =>
    have hb : b ∈ (s.thread p).childNodes := by rw [hnodes]; exact List.mem_cons_self
    have hfirst : b ∈ (b :: rest).take 1 := List.mem_cons_self
    have hno : ∀ q, ¬ Uses s q b := by
      rintro q ⟨hq, hqb, hql⟩
      exact hql (hdone b (hnodes ▸ hfirst) q hq hqb)
    refine .inr ⟨b, hfirst, ?_, hno⟩
    simp only [if_pos (h.done p hp b (mem_held_of_childNodes hb) hno).1, h.touch_child hp hb]

/-- A step inside the kernel. -/
theorem NodeInv.run (h : NodeInv s) (hexec : ExecInv s) (hexec' : ExecInv s')
    (hp : p ∈ s.allList) (hstep : runPc s p (s.thread p).pc = some s') (hguard : ReleasesDone s (.run p)) :
    NodeInv s' := by
  have hok := hexec.pc_ok p hp
  simp only [ReleasesDone] at hguard
  generalize hpc : (s.thread p).pc = pc at hstep hguard
  have huse : ∀ {b}, (s.thread p).tidNode = some b → pc ≠ .leave → Uses s p b :=
    fun hb hl => ⟨hp, hb, hpc ▸ hl⟩
  have hsoft : ∀ {s₁ pc'}, Soft s s₁ → pc.smooth = true → pc'.smooth = true → pc'.marking = none →
      NodeInv (s₁.goto p pc') := fun hs hold => h.soft_goto hs hp (hpc ▸ hold)
  have hup : ∀ {pc'}, pc.smooth = true → pc'.smooth = true → pc'.marking = none → NodeInv (s.setThread p
      { s.thread p with loadSema := (s.thread p).loadSema + 1, pc := pc' }) := by
    intro pc' hold hnew hmark
    obtain ⟨he, hr⟩ := Pc.smooth_iff.mp hold
    obtain ⟨he', hr'⟩ := Pc.smooth_iff.mp hnew
    refine h.move rfl rfl rfl (fun _ _ hb => hb) (.inr ⟨hpc ▸ he, he'⟩) (hpc ▸ hr) ?_ hmark
    intro b hb
    cases hr'.symm.trans hb
  have hran := ran_of_runPc hstep
  cases hran <;> simp only [PcOk, hpc] at hok
  case lost hnode hthrough =>
    refine h.move rfl rfl rfl (fun _ _ hb => hb) (.inl hnode) ?_ (by rintro b ⟨⟩) rfl
    cases pc <;> first | (rw [hpc]; rfl) | cases hthrough
  case setLoaded ok b hb => exact hsoft (Soft.storeLoaded s b ok) rfl rfl rfl
  case loaded ok _ => exact hup rfl rfl rfl
  case unloaded ok _ => exact (hup rfl rfl rfl).soft (Soft.emit _ _)
  case created tid => exact hsoft (Soft.refl s) rfl rfl rfl
  case missed tid => exact h.executeReturn (by rw [hpc]; rfl) (fun b hb => mem_held_of_childNodes hb)
  case found | passed | next | strayed | readNode | noNode => exact hsoft (Soft.peek s p _ _) rfl rfl rfl
  case downLoad tid c b hsema =>
    have hsema := Soft.setSema (s.peek p c ((s.thread c).tid == tid)) c ((s.thread c).loadSema - 1)
    rw [State.peek_thread] at hsema
    exact hsoft ((Soft.peek s p c _).trans hsema) rfl rfl rfl
  case checked tid b hl =>
    obtain ⟨m, hm, _, _, rfl⟩ := hok
    exact h.executeReturn (by rw [hpc]; rfl) (by simp [Thread.held, hm])
  case refused tid b hl => exact h.executeReturn (by rw [hpc]; rfl) (fun x hx => mem_held_of_childNodes hx)
  case waitDown tid b hsema =>
    rw [h.touch_child hp hok.2]
    exact h.down hexec.toHeld hp hpc hok.2 hsema
  case waitReap tid b =>
    rw [h.touch_child hp hok.2] at hexec' ⊢
    exact h.release hp (by rw [hpc]; rfl) rfl (by rintro x ⟨⟩; rfl) hexec'.toHeld
  case waitMark tid b r =>
    refine hsoft (Soft.trans (Soft.trans (Soft.touch s p b) (Soft.setNode _ ?_ ?_ ?_)) (Soft.emit _ _))
      rfl rfl rfl <;> rw [State.touch_node]
  case exitStatus b hb =>
    obtain ⟨s₁, hs, heq⟩ := Soft.settleStatus (s := s) p b
    exact heq ▸ hsoft hs rfl rfl rfl
  case exitChildren own hb =>
    rcases h.releaseChild_eq own hp (hguard rfl) with heq | ⟨b, -, heq, hno⟩ <;> rw [heq]
    · exact hsoft (Soft.refl s) rfl rfl rfl
    · refine h.move rfl rfl rfl (fun _ _ hx => hx) (.inr ⟨by rw [hpc]; rfl, rfl⟩) (by rw [hpc]; rfl) ?_ rfl
      rintro x ⟨⟩
      exact hno
  case exitFree b =>
    rw [h.touch_child hp hok.2] at hexec' ⊢
    exact h.release hp (by rw [hpc]; rfl) rfl (by rintro x ⟨⟩) hexec'.toHeld
  case exitChild b hb hflag =>
    rw [State.touch_of_allocated s p b (h.allocated p b (huse hb (by rintro ⟨⟩)))]
    exact h.clearChild hp hpc hb
  case disowned b hb hflag => cases hflag.symm.trans (h.flag p b (huse hb (by rintro ⟨⟩)))
  case exitUp b hb =>
    rw [State.touch_of_allocated s p b (h.allocated p b (huse hb (by rintro ⟨⟩)))]
    exact h.signal hp hpc hb
  case leave => exact h.leave hpc

/-- **Every step keeps the invariant on both sides**, if threads leave unread, nodes are given back when their
    threads have signalled, and no block is used again while a `process_wait` has still to write there. -/
theorem NodeInv.step {a : Action} (h : NodeInv s) (hexec : ExecInv s) (hleave : LeavesUnread s a)
    (hrelease : ReleasesDone s a) (hreuse : ReusesUnmarked s a) (hstep : step s a = some s') : NodeInv s' := by
  have hexec' := hexec.step hleave hstep
  cases steps_of_step hstep with
  | exec hat hpage hblock => exact h.create hexec hat hpage hblock hreuse hexec'.toHeld
  | execFail hat => exact h.soft (Soft.emit s _)
  | load ok hat => exact NodeInv.soft (h.goto (by rw [hat.2]; rfl) rfl rfl) (Soft.emit _ _)
  | @exit p status hat =>
    obtain ⟨s₁, hsoft, heq⟩ := Soft.exitW (s := s) p status
    exact heq ▸ h.soft_goto hsoft hat.1 (by rw [hat.2]; rfl) rfl rfl
  | kill hat => exact NodeInv.soft (h.goto (by rw [hat.2]; rfl) rfl rfl) (Soft.emit _ _)
  | wait tid hat => exact h.wait hat tid
  | run hp hrun => exact h.run hexec hexec' hp hrun hrelease
  | scribblePage T hpage => exact h.soft (Soft.scribblePage hpage T)
  | scribbleBlock N hblock => exact h.soft (Soft.scribbleBlock hblock N)

theorem uses_init (h : Uses init q b) : q = 1 ∧ b = 0 := by
  obtain ⟨hq, hb, _⟩ := h
  rcases mem_init hq with rfl | rfl
  · cases hb
  · exact ⟨rfl, (Option.some.inj hb).symm⟩

theorem nodeInv_init : NodeInv init := by
  constructor
  case held => intro p hp b hb; rcases mem_init hp with rfl | rfl <;> cases hb
  case allocated => intro q b hu; obtain ⟨rfl, rfl⟩ := uses_init hu; rfl
  case inj => intro q r b hq hr; rw [(uses_init hq).1, (uses_init hr).1]
  case tid => intro q b hu; obtain ⟨rfl, rfl⟩ := uses_init hu; rfl
  case flag => intro q b hu; obtain ⟨rfl, rfl⟩ := uses_init hu; rfl
  case child => intro q b hu; obtain ⟨rfl, rfl⟩ := uses_init hu; rfl
  case sema => intro q b hu; obtain ⟨rfl, rfl⟩ := uses_init hu; rfl
  case done => intro p hp b hb; rcases mem_init hp with rfl | rfl <;> cases hb
  case reaping => intro p hp b hb; rcases mem_init hp with rfl | rfl <;> cases hb
  case marking => intro p hp b hb; rcases mem_init hp with rfl | rfl <;> cases hb

end Process
end Asg1

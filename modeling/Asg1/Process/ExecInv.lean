import Asg1.Process.Model

/-!
# `Process.ExecInv` — the invariant on the parents' side

Every `process_execute` that has not returned knows a thread that is still there, every node is answered for by
one thread at most, and the node of a thread says how its `load` ended. The changes a step can make keep this
invariant; the one that needs a condition is a thread leaving, which no `process_execute` may still have to read
(`LeavesUnread`).
-/

namespace Asg1
namespace Process

open Cursor

/-! ## The condition -/

/-- A `process_execute` at this point still has to read the page of thread `c`, or page `q`. -/
@[grind =] def Pc.reads (q : Addr) (c : Int) : Pc → Bool
  | .created t => t == c
  | .lookup t e => t == c || e == some q
  | .lookupNext t e => t == c || e == q
  | .readNode t e => t == c || e == q
  | .downLoad t e _ => t == c || e == q
  | _ => false

/-- A thread that leaves is read by no `process_execute` any more. -/
def LeavesUnread (s : State) : Action → Prop
  | .run q => (s.thread q).pc = .leave → ∀ p ∈ s.allList, (s.thread p).pc.reads q (s.thread q).tid = false
  | _ => True

instance (s : State) : (a : Action) → Decidable (LeavesUnread s a)
  | .run _ => inferInstanceAs (Decidable (_ → ∀ p ∈ _, _ = false))
  | .exec .. | .execFail .. | .load .. | .exit .. | .kill .. | .wait .. | .scribblePage .. | .scribbleBlock .. =>
    isTrue trivial

/-! ## The invariant -/

/-- `start_process` has not come to its `sema_up`. -/
@[grind =] def Pc.loading : Pc → Bool
  | .start | .setLoaded _ | .upLoad _ => true
  | _ => false

/-- `start_process` has not come past the store to `loaded`. -/
@[grind =] def Pc.unmarked : Pc → Bool
  | .start | .setLoaded _ => true
  | _ => false

/-- The node of a thread that stands at `pc` says how its `load` ended, once the thread is past the store. -/
@[grind =] def LoadOk (log : List Event) (c : Int) (loaded : Bool) : Pc → Prop
  | .start => loaded = false
  | .setLoaded ok => loaded = false ∧ .load c ok ∈ log
  | _ => .load c loaded ∈ log

/-- The new thread is still there, with its node. -/
structure ChildOk (s : State) (m : Made) : Prop where
  listed : m.page ∈ s.allList
  tid : (s.thread m.page).tid = m.tid
  node : (s.thread m.page).tidNode = some m.node
  load : LoadOk s.log m.tid (s.node m.node).loaded (s.thread m.page).pc

/-- The new thread has passed its `sema_up`; it may be gone. -/
structure ChildPast (s : State) (m : Made) : Prop where
  load : .load m.tid (s.node m.node).loaded ∈ s.log
  past : m.page ∈ s.allList → (s.thread m.page).tid = m.tid → (s.thread m.page).pc.loading = false

/-- What the point where a thread stands says about its local variables. -/
def PcOk (s : State) (T : Thread) : Prop :=
  match T.pc with
  | .created c => ∃ m, T.making = some m ∧ m.tid = c ∧ ChildOk s m
  | .lookup c e => ∃ m, T.making = some m ∧ m.tid = c ∧ ChildOk s m ∧ ∃ q, e = some q ∧ Sees s.allList q m.page
  | .lookupNext c e => ∃ m, T.making = some m ∧ m.tid = c ∧ ChildOk s m ∧ Before s.allList e m.page
  | .readNode c e => ∃ m, T.making = some m ∧ m.tid = c ∧ ChildOk s m ∧ e = m.page
  | .downLoad c e b => ∃ m, T.making = some m ∧ m.tid = c ∧ ChildOk s m ∧ e = m.page ∧ b = m.node
  | .checkLoaded c b => ∃ m, T.making = some m ∧ m.tid = c ∧ ChildPast s m ∧ b = m.node
  | .waitDown _ b | .waitReap _ b | .exitFree b => T.making = none ∧ b ∈ T.childNodes
  | _ => T.making = none

/-- The nodes a thread answers for: those of its children, and the one it is making. -/
@[grind =] def Thread.held (T : Thread) : List Addr := T.childNodes ++ (T.making.map Made.node).toList

/-- Tids are unique, and each node that is held is allocated and held once. -/
structure Held (s : State) : Prop where
  nodup : s.allList.Nodup
  tid_lt : ∀ p ∈ s.allList, (s.thread p).tid < s.nextTid
  tid_pos : ∀ p ∈ s.allList, 0 < (s.thread p).tid
  tid_inj : ∀ p ∈ s.allList, ∀ q ∈ s.allList, (s.thread p).tid = (s.thread q).tid → p = q
  made_lt : ∀ p ∈ s.allList, ∀ m, (s.thread p).making = some m → m.tid < s.nextTid
  held_allocated : ∀ p ∈ s.allList, ∀ b ∈ (s.thread p).held, s.allocated b = true
  held_inj : ∀ p ∈ s.allList, ∀ q ∈ s.allList, ∀ b, b ∈ (s.thread p).held → b ∈ (s.thread q).held → p = q
  held_nodup : ∀ p ∈ s.allList, (s.thread p).held.Nodup

/-- The invariant on the parents' side. -/
structure ExecInv (s : State) : Prop extends Held s where
  pc_ok : ∀ p ∈ s.allList, PcOk s (s.thread p)
  load_sema : ∀ q ∈ s.allList, (s.thread q).pc.loading = true → (s.thread q).loadSema = 0
  /-- A thread that has still to write `loaded` is being waited for, and writes the node that is waited on. -/
  made : ∀ q ∈ s.allList, (s.thread q).pc.unmarked = true →
    ∃ p ∈ s.allList, ∃ b, (s.thread p).making = some ⟨(s.thread q).tid, q, b⟩ ∧ (s.thread q).tidNode = some b
  fresh : ∀ q ∈ s.allList, (s.thread q).pc = .start → ∀ ok, .load (s.thread q).tid ok ∉ s.log
  load_lt : ∀ c ok, .load c ok ∈ s.log → c < s.nextTid
  load_pos : ∀ c ok, .load c ok ∈ s.log → 0 < c
  load_once : ∀ c, .load c true ∈ s.log → .load c false ∉ s.log
  exec_ok : ∀ p c r, .exec p (some c) r ∈ s.log → ∃ ok, .load c ok ∈ s.log ∧ r = if ok then c else TID_ERROR
  no_stray : ∀ p, .strayThread p ∉ s.log

variable {s s' : State} {page block p : Addr} {log : List Event} {loaded : Bool}

/-- `Held` reads only tids, lists of children and the child being made. -/
theorem Held.congr (h : Held s) (hlist : s'.allList = s.allList)
    (halloc : s'.allocated = s.allocated) (hnext : s'.nextTid = s.nextTid)
    (hthread : ∀ q ∈ s.allList, (s'.thread q).tid = (s.thread q).tid ∧
      (s'.thread q).childNodes = (s.thread q).childNodes ∧ (s'.thread q).making = (s.thread q).making) : Held s' := by
  obtain ⟨hnodup, htid_lt, htid_pos, htid_inj, hmade_lt, hallocated, hinj, hheld⟩ := h
  constructor <;> grind

variable {s : State} {T : Thread} {p b : Addr} {m : Made} {pc : Pc} {c : Int}


theorem mem_held_of_making (h : T.making = some m) : m.node ∈ T.held := by
  simp [Thread.held, h]

theorem mem_held_of_childNodes (h : b ∈ T.childNodes) : b ∈ T.held :=
  List.mem_append_left _ h

/-- What the point says carries over to a state in which the children are as before. -/
theorem PcOk.mono (h : PcOk s T) (hchild : ∀ m, T.making = some m → ChildOk s m → ChildOk s' m)
    (hpast : ∀ m, T.making = some m → ChildPast s m → ChildPast s' m)
    (hlist : ∀ q x, Before s.allList q x → Before s'.allList q x) : PcOk s' T := by
  unfold PcOk at h ⊢
  split at h <;> grind [Sees]

theorem LoadOk.mono {log' : List Event} (h : LoadOk log c loaded pc)
    (hlog : ∀ ok, .load c ok ∈ log → .load c ok ∈ log') : LoadOk log' c loaded pc := by
  cases pc <;> grind

/-- Past the store the node agrees with the log. -/
theorem LoadOk.of_marked {pc pc' : Pc} (h : LoadOk log c loaded pc)
    (hpc : pc.unmarked = false) (hpc' : pc'.unmarked = false) : LoadOk log c loaded pc' := by
  cases pc <;> cases pc' <;> simp_all [LoadOk, Pc.unmarked]

theorem unmarked_of_not_loading (h : pc.loading = false) : pc.unmarked = false := by
  cases pc <;> simp_all [Pc.loading, Pc.unmarked]

theorem loading_of_unmarked (h : pc.unmarked = true) : pc.loading = true := by
  cases pc <;> simp_all [Pc.loading, Pc.unmarked]

/-! ## Changes the invariant does not speak of -/

/-- Events that say nothing about `load` and `process_execute`. -/
@[grind =] def Event.quiet : Event → Bool
  | .load _ _ | .exec _ (some _) _ | .strayThread _ => false
  | _ => true

/-- Only flags of threads, fields of nodes other than `loaded`, free memory and quiet events change. -/
structure Quiet (s s' : State) : Prop where
  allList : s'.allList = s.allList
  allocated : s'.allocated = s.allocated
  nextTid : s'.nextTid = s.nextTid
  thread : ∀ q ∈ s.allList, ∃ f, s'.thread q = { s.thread q with tidNodeExists := f }
  loaded : ∀ b, s.allocated b = true → (s'.node b).loaded = (s.node b).loaded
  log : ∀ e : Event, e.quiet = false → (e ∈ s'.log ↔ e ∈ s.log)

namespace Quiet

variable {s s' s'' : State}

theorem refl (s : State) : Quiet s s :=
  ⟨rfl, rfl, rfl, fun q _ => ⟨(s.thread q).tidNodeExists, rfl⟩, fun _ _ => rfl, fun _ _ => Iff.rfl⟩

theorem trans (h : Quiet s s') (h' : Quiet s' s'') : Quiet s s'' := by
  obtain ⟨hlist, halloc, hnext, hthread, hloaded, hlog⟩ := h
  obtain ⟨hlist', halloc', hnext', hthread', hloaded', hlog'⟩ := h'
  constructor <;> grind

theorem emit (s : State) {e : Event} (he : e.quiet = true) : Quiet s (s.emit e) :=
  ⟨rfl, rfl, rfl, fun q _ => ⟨_, rfl⟩, fun _ _ => rfl, by grind⟩

theorem touch (s : State) (p b : Addr) : Quiet s (s.touch p b) := by
  unfold State.touch
  split
  · exact refl s
  · exact emit s rfl

theorem touchNodes (s : State) (p : Addr) (nodes : List Addr) : Quiet s (touchNodes s p nodes) := by
  induction nodes generalizing s with
  | nil => exact refl s
  | cons b nodes ih => exact (touch s p b).trans (ih _)

theorem setNode (s : State) {N : TidStatus} (h : N.loaded = (s.node b).loaded) : Quiet s (s.setNode b N) :=
  ⟨rfl, rfl, rfl, fun q _ => ⟨_, rfl⟩, by grind, fun _ _ => Iff.rfl⟩

theorem setFlag (s : State) (q : Addr) (f : Bool) : Quiet s (s.setThread q { s.thread q with tidNodeExists := f }) := by
  refine ⟨rfl, rfl, rfl, fun x _ => ?_, fun _ _ => rfl, fun _ _ => Iff.rfl⟩
  by_cases hx : x = q
  · exact ⟨f, by simp [hx]⟩
  · exact ⟨_, if_neg hx⟩

theorem scribblePage (h : page ∉ s.allList) (T : Thread) : Quiet s (s.setThread page T) :=
  ⟨rfl, rfl, rfl, fun _ hx => ⟨_, if_neg (by rintro rfl; exact h hx)⟩, fun _ _ => rfl, fun _ _ => Iff.rfl⟩

theorem scribbleBlock (h : s.allocated block = false) (N : TidStatus) : Quiet s (s.setNode block N) :=
  ⟨rfl, rfl, rfl, fun q _ => ⟨_, rfl⟩, by grind, fun _ _ => Iff.rfl⟩

theorem childOk (h : Quiet s s') (hm : s.allocated m.node = true) (hc : ChildOk s m) : ChildOk s' m := by
  obtain ⟨f, hf⟩ := h.thread _ hc.listed
  refine ⟨h.allList ▸ hc.listed, by rw [hf]; exact hc.tid, by rw [hf]; exact hc.node, ?_⟩
  rw [hf, h.loaded _ hm]
  exact hc.load.mono (fun ok hok => (h.log _ rfl).mpr hok)

theorem childPast (h : Quiet s s') (hm : s.allocated m.node = true) (hc : ChildPast s m) : ChildPast s' m := by
  refine ⟨by rw [h.loaded _ hm]; exact (h.log _ rfl).mpr hc.load, ?_⟩
  grind [h.allList, h.thread, hc.past]

end Quiet

theorem ExecInv.quiet (h : ExecInv s) (hq : Quiet s s') : ExecInv s' := by
  obtain ⟨hlist, halloc, hnext, hthread, hloaded, hlog⟩ := id hq
  have hloads := h.load_lt
  have hpos := h.load_pos
  constructor
  case toHeld => exact h.toHeld.congr hlist halloc hnext (by grind)
  case pc_ok =>
    intro p hp
    rw [hlist] at hp
    obtain ⟨f, hf⟩ := hthread p hp
    have hmade : ∀ m, (s.thread p).making = some m → s.allocated m.node = true :=
      fun m hm => h.held_allocated p hp _ (mem_held_of_making hm)
    rw [hf]
    exact (h.pc_ok p hp).mono (fun m hm hc => hq.childOk (hmade m hm) hc)
      (fun m hm hc => hq.childPast (hmade m hm) hc) (fun _ _ hb => hlist ▸ hb)
  case load_sema => grind [h.load_sema]
  case made => grind [h.made]
  case fresh => grind [h.fresh]
  case load_lt => grind
  case load_pos => grind
  case load_once => grind [h.load_once]
  case exec_ok => grind [h.exec_ok]
  case no_stray => grind [h.no_stray]

/-! ## One thread moves on -/

theorem ChildOk.update (h : ChildOk s m) (htid : T.tid = (s.thread p).tid) (hnode : T.tidNode = (s.thread p).tidNode)
    (hold : (s.thread p).pc.unmarked = false) (hnew : T.pc.unmarked = false) : ChildOk (s.setThread p T) m := by
  constructor
  case listed => exact h.listed
  case tid => grind [h.tid]
  case node => grind [h.node]
  case load =>
    rw [State.setThread_thread]
    split
    · rename_i hm
      rw [← hm] at hold
      exact h.load.of_marked hold hnew
    · exact h.load

theorem ChildPast.update (h : ChildPast s m) (hnew : T.pc.loading = false) : ChildPast (s.setThread p T) m :=
  ⟨h.load, by grind [h.past]⟩

/-- A thread past the store to `loaded` may change what it stands for, as long as it takes on no node and stays
    with the child it is making until that child needs it no more. -/
theorem ExecInv.update (h : ExecInv s) (hp : p ∈ s.allList)
    (htid : T.tid = (s.thread p).tid) (hnode : T.tidNode = (s.thread p).tidNode)
    (hold : (s.thread p).pc.unmarked = false) (hnew : T.pc.loading = false) (hok : PcOk s T)
    (hheld : ∀ b ∈ T.held, b ∈ (s.thread p).held) (hnodup : T.held.Nodup)
    (hmade : T.making = (s.thread p).making ∨ (T.making = none ∧ ∀ q ∈ s.allList,
      (s.thread q).pc.unmarked = true → ∀ b, (s.thread p).making ≠ some ⟨(s.thread q).tid, q, b⟩)) :
    ExecInv (s.setThread p T) := by
  have hunm := unmarked_of_not_loading hnew
  have hmono : ∀ {U : Thread}, PcOk s U → PcOk (s.setThread p T) U := fun hU =>
    hU.mono (fun m _ hc => hc.update htid hnode hold hunm) (fun m _ hc => hc.update hnew) (fun _ _ hb => hb)
  refine { h with toHeld := ?_, pc_ok := ?_, load_sema := ?_, made := ?_, fresh := ?_ }
  · have htids : ∀ q, ((s.setThread p T).thread q).tid = (s.thread q).tid := by grind
    have hheld' : ∀ q, ∀ b ∈ ((s.setThread p T).thread q).held, b ∈ (s.thread q).held := by grind
    refine ⟨h.nodup, ?_, ?_, ?_, ?_, ?_, ?_, ?_⟩
    · exact fun q hq => htids q ▸ h.tid_lt q hq
    · exact fun q hq => htids q ▸ h.tid_pos q hq
    · exact fun q hq r hr => htids q ▸ htids r ▸ h.tid_inj q hq r hr
    · have := h.made_lt
      grind
    · exact fun q hq b hb => h.held_allocated q hq b (hheld' q b hb)
    · exact fun q hq r hr b hb hb' => h.held_inj q hq r hr b (hheld' q b hb) (hheld' r b hb')
    · grind [h.held_nodup]
  · grind [h.pc_ok]
  · grind [h.load_sema]
  · grind [h.made]
  · grind [h.fresh]

/-- Only the point where the thread stands changes. -/
theorem ExecInv.goto (h : ExecInv s) (hp : p ∈ s.allList)
    (hold : (s.thread p).pc.unmarked = false) (hnew : pc.loading = false)
    (hok : PcOk s { s.thread p with pc }) : ExecInv (s.goto p pc) :=
  h.update hp rfl rfl hold hnew hok (fun _ hb => hb) (h.held_nodup p hp) (.inl rfl)

theorem ExecInv.free (h : ExecInv s) (hb : ∀ p ∈ s.allList, b ∉ (s.thread p).held) : ExecInv (s.free b) := by
  refine { h with toHeld := { h.toHeld with held_allocated := ?_ }, pc_ok := ?_ }
  · grind [h.held_allocated]
  · intro p hp
    exact (h.pc_ok p hp).mono (fun m _ hc => ⟨hc.listed, hc.tid, hc.node, hc.load⟩)
      (fun m _ hc => ⟨hc.load, hc.past⟩) (fun _ _ hx => hx)

/-- A `process_execute` that returns what `load` returned. -/
theorem ExecInv.emitExec (h : ExecInv s) (p : Int) (ok : Bool) (hload : .load c ok ∈ s.log) :
    ExecInv (s.emit (.exec p (some c) (if ok then c else TID_ERROR))) := by
  have hloads := h.load_lt
  have hpos := h.load_pos
  refine { h with
    pc_ok := ?_, fresh := ?_, load_lt := ?_, load_pos := ?_, load_once := ?_, exec_ok := ?_, no_stray := ?_ }
  · intro q hq
    exact (h.pc_ok q hq).mono
      (fun m _ hc => ⟨hc.listed, hc.tid, hc.node, hc.load.mono (fun _ hm => List.mem_cons_of_mem _ hm)⟩)
      (fun m _ hc => ⟨List.mem_cons_of_mem _ hc.load, hc.past⟩) (fun _ _ hx => hx)
  · grind [h.fresh]
  · grind
  · grind
  · grind [h.load_once]
  · grind [h.exec_ok]
  · grind [h.no_stray]

/-! ## A thread comes, loads and leaves -/

theorem Held.create (h : Held s) (hp : p ∈ s.allList) (hpage : page ∉ s.allList)
    (hblock : s.allocated block = false) (hmk : (s.thread p).making = none) : Held (processExecute s p page block) := by
  have hfresh : ∀ q ∈ s.allList, block ∉ (s.thread q).held := by grind [h.held_allocated]
  have hheld : ∀ q, ∀ b ∈ ((processExecute s p page block).thread q).held, q ≠ page →
      b ∈ (s.thread q).held ∨ q = p ∧ b = block := by grind
  have hnew : ((processExecute s p page block).thread page).held = [] := by grind
  constructor
  case nodup => grind [h.nodup]
  case tid_lt => have := h.tid_lt; grind
  case tid_pos => have := h.tid_pos; have := h.tid_lt p hp; grind
  case tid_inj => have := h.tid_inj; have := h.tid_lt; grind
  case made_lt => have := h.made_lt; grind
  case held_allocated => grind [h.held_allocated]
  case held_inj => grind [h.held_inj]
  case held_nodup => grind [h.held_nodup]

theorem ExecInv.create (h : ExecInv s) (hat : At s p .user)
    (hpage : page ∉ s.allList) (hblock : s.allocated block = false) : ExecInv (processExecute s p page block) := by
  obtain ⟨hp, hpc⟩ := hat
  have hmk : (s.thread p).making = none := by
    have := h.pc_ok p hp
    simpa [PcOk, hpc] using this
  have hchild : ∀ {m : Made}, s.allocated m.node = true → ChildOk s m → ChildOk (processExecute s p page block) m := by
    intro m hm hc
    refine ⟨by simp [hc.listed], by grind [hc.listed, hc.tid], by grind [hc.listed, hc.node], ?_⟩
    grind [hc.listed, hc.load]
  have hpast : ∀ {m : Made}, m.tid < s.nextTid → s.allocated m.node = true → ChildPast s m →
      ChildPast (processExecute s p page block) m := by
    -- the page may be the one where the child used to be, but the tid is new
    intro m hlt hm hc
    exact ⟨by grind [hc.load], by grind [hc.past]⟩
  constructor
  case toHeld => exact h.toHeld.create hp hpage hblock hmk
  case pc_ok =>
    intro q hq
    by_cases hqs : q ∈ s.allList
    · by_cases hqp : q = p
      · rw [hqp, processExecute_thread, if_pos rfl]
        refine ⟨_, rfl, rfl, by simp, ?_, ?_, ?_⟩ <;> grind
      · rw [processExecute_thread, if_neg hqp, if_neg (by rintro rfl; exact hpage hqs)]
        have halloc : ∀ m, (s.thread q).making = some m → s.allocated m.node = true :=
          fun m hm => h.held_allocated q hqs _ (mem_held_of_making hm)
        exact (h.pc_ok q hqs).mono (fun m hm hc => hchild (halloc m hm) hc)
          (fun m hm hc => hpast (h.made_lt q hqs m hm) (halloc m hm) hc) (fun _ _ hb => hb.append _)
    · grind [PcOk]
  case load_sema => grind [h.load_sema]
  case made =>
    intro q hq hu
    by_cases hqp : q = page
    · exact ⟨p, by simp [hp], block, by grind, by grind⟩
    · obtain ⟨r, hr, b, hm, hb⟩ := h.made q (by grind) (by grind)
      exact ⟨r, by simp [hr], b, by grind, by grind⟩
  case fresh => have := h.load_lt; grind [h.fresh]
  case load_lt => have := h.load_lt; grind
  case load_pos => exact h.load_pos
  case load_once => exact h.load_once
  case exec_ok => exact h.exec_ok
  case no_stray => exact h.no_stray

/-- `load` returns in thread `p`. -/
theorem ExecInv.load (h : ExecInv s) (hat : At s p .start) (ok : Bool) :
    ExecInv ((s.goto p (.setLoaded ok)).emit (.load (s.thread p).tid ok)) := by
  obtain ⟨hp, hpc⟩ := hat
  have hloads := h.load_lt
  have hpos := h.load_pos
  have hlt := h.tid_lt p hp
  have hgt := h.tid_pos p hp
  have hnone := h.fresh p hp hpc
  have hchild : ∀ m, ChildOk s m → ChildOk ((s.goto p (.setLoaded ok)).emit (.load (s.thread p).tid ok)) m := by
    intro m hc
    refine ⟨hc.listed, by grind [hc.tid], by grind [hc.node], ?_⟩
    by_cases hm : m.page = p
    · grind [hc.load, hc.tid]
    · simpa [hm] using hc.load.mono (fun _ hm => List.mem_cons_of_mem _ hm)
  have hpast : ∀ m, ChildPast s m → ChildPast ((s.goto p (.setLoaded ok)).emit (.load (s.thread p).tid ok)) m := by
    -- a child past its `sema_up` is not at the start
    intro m hc
    exact ⟨List.mem_cons_of_mem _ hc.load, by grind [hc.past]⟩
  constructor
  case toHeld => exact h.toHeld.congr rfl rfl rfl (by grind)
  case pc_ok =>
    intro q hq
    have hok := h.pc_ok q hq
    by_cases hqp : q = p
    · grind [PcOk]
    · simpa [hqp] using hok.mono (fun m _ hc => hchild m hc) (fun m _ hc => hpast m hc) (fun _ _ hb => hb)
  case load_sema => grind [h.load_sema]
  case made =>
    intro q hq hu
    obtain ⟨r, hr, b, hm, hb⟩ := h.made q hq (by grind)
    exact ⟨r, hr, b, by grind, by grind⟩
  case fresh => grind [h.fresh, h.tid_inj]
  case load_lt => grind
  case load_pos => grind
  case load_once => grind [h.load_once]
  case exec_ok => grind [h.exec_ok]
  case no_stray => grind [h.no_stray]

section
variable (s : State) (b x : Addr) (ok : Bool)

@[simp, grind =] theorem storeLoaded_thread : (storeLoaded s b ok).thread x = s.thread x := by cases ok <;> rfl
@[simp, grind =] theorem storeLoaded_allList : (storeLoaded s b ok).allList = s.allList := by cases ok <;> rfl
@[simp, grind =] theorem storeLoaded_allocated : (storeLoaded s b ok).allocated = s.allocated := by cases ok <;> rfl
@[simp, grind =] theorem storeLoaded_nextTid : (storeLoaded s b ok).nextTid = s.nextTid := by cases ok <;> rfl
@[simp, grind =] theorem storeLoaded_log : (storeLoaded s b ok).log = s.log := by cases ok <;> rfl
@[simp, grind =] theorem storeLoaded_node : (storeLoaded s b ok).node x =
    if x = b then { s.node b with loaded := (s.node b).loaded || ok } else s.node x := by
  cases ok <;> by_cases hx : x = b <;> simp [storeLoaded, hx]

end

theorem ExecInv.store (h : ExecInv s) {b : Addr} {ok : Bool} (hp : p ∈ s.allList)
    (hpc : (s.thread p).pc = .setLoaded ok) (hb : (s.thread p).tidNode = some b) :
    ExecInv ((storeLoaded s b ok).goto p (.upLoad ok)) := by
  -- the one that waits for `p` is the one that holds `b`
  obtain ⟨r, hr, b', hmr, hb'⟩ := h.made p hp (by rw [hpc]; rfl)
  obtain rfl : b = b' := Option.some.inj (hb.symm.trans hb')
  have hholder : ∀ q ∈ s.allList, ∀ m, (s.thread q).making = some m → m.node = b →
      m = ⟨(s.thread p).tid, p, b⟩ := by
    intro q hq m hm hmb
    have hqr : q = r := h.held_inj q hq r hr b (hmb ▸ mem_held_of_making hm) (mem_held_of_making hmr)
    grind
  have hchild : ∀ q ∈ s.allList, ∀ m, (s.thread q).making = some m → ChildOk s m →
      ChildOk ((storeLoaded s b ok).goto p (.upLoad ok)) m := by
    intro q hq m hm hc
    obtain ⟨hlisted, htid, hnode, hload⟩ := hc
    have hmp : m.page = p → m.node = b := by grind
    constructor <;> grind
  have hpast : ∀ q ∈ s.allList, ∀ m, (s.thread q).making = some m → ChildPast s m →
      ChildPast ((storeLoaded s b ok).goto p (.upLoad ok)) m := by
    intro q hq m hm hc
    obtain ⟨hload, hpast⟩ := hc
    -- `p` has its `sema_up` before it, so it is not the child
    have hmp : ¬(m.page = p ∧ (s.thread p).tid = m.tid) := by grind
    constructor <;> grind
  constructor
  case toHeld =>
    exact h.toHeld.congr (storeLoaded_allList ..) (storeLoaded_allocated ..) (storeLoaded_nextTid ..) (by grind)
  case pc_ok =>
    intro q hq
    have hok := h.pc_ok q (by grind)
    by_cases hqp : q = p
    · grind [PcOk]
    · simpa [hqp] using hok.mono (hchild q (by grind)) (hpast q (by grind)) (fun _ _ hx => by simpa using hx)
  case load_sema => grind [h.load_sema]
  case made =>
    intro q hq hu
    obtain ⟨r', hr', x, hm, hx⟩ := h.made q (by grind) (by grind)
    exact ⟨r', by grind, x, by grind, by grind⟩
  case fresh => grind [h.fresh]
  case load_lt => simpa using h.load_lt
  case load_pos => simpa using h.load_pos
  case load_once => simpa using h.load_once
  case exec_ok => simpa using h.exec_ok
  case no_stray => simpa using h.no_stray

/-- Thread `p` leaves, unread. -/
theorem ExecInv.leave (h : ExecInv s) (hp : p ∈ s.allList) (hpc : (s.thread p).pc = .leave)
    (hunread : ∀ q ∈ s.allList, (s.thread q).pc.reads p (s.thread p).tid = false) :
    ExecInv { s with allList := s.allList.filter (· ≠ p) } := by
  have hmk : (s.thread p).making = none := by
    have hok := h.pc_ok p hp
    simpa [PcOk, hpc] using hok
  have hchild : ∀ m, m.tid ≠ (s.thread p).tid → ChildOk s m →
      m.page ≠ p ∧ ChildOk { s with allList := s.allList.filter (· ≠ p) } m := by
    intro m hne hc
    have hmp : m.page ≠ p := by grind [hc.tid]
    exact ⟨hmp, by simpa [hmp] using hc.listed, hc.tid, hc.node, hc.load⟩
  have hpast : ∀ m, ChildPast s m → ChildPast { s with allList := s.allList.filter (· ≠ p) } m :=
    fun m hc => ⟨hc.load, by grind [hc.past]⟩
  have hremove : ∀ e x, Before s.allList e x → e ≠ p → x ≠ p → Before (s.allList.filter (· ≠ p)) e x :=
    fun _ _ hb => hb.remove
  have hsub : ∀ {q}, q ∈ s.allList.filter (· ≠ p) → q ∈ s.allList := List.mem_of_mem_filter
  refine { h with toHeld := ?_, pc_ok := ?_, load_sema := ?_, made := ?_, fresh := ?_ }
  · exact ⟨h.nodup.filter _, fun q hq => h.tid_lt q (hsub hq), fun q hq => h.tid_pos q (hsub hq),
      fun q hq r hr => h.tid_inj q (hsub hq) r (hsub hr), fun q hq => h.made_lt q (hsub hq),
      fun q hq => h.held_allocated q (hsub hq), fun q hq r hr => h.held_inj q (hsub hq) r (hsub hr),
      fun q hq => h.held_nodup q (hsub hq)⟩
  · intro q hq
    have hq : q ∈ s.allList := hsub hq
    have hok := h.pc_ok q hq
    -- at the points that speak of a child, the child and the cursor are not `p`
    unfold PcOk at hok ⊢
    split at hok <;> grind [Sees]
  · exact fun q hq => h.load_sema q (hsub hq)
  · grind [h.made]
  · exact fun q hq => h.fresh q (hsub hq)

end Process
end Asg1

import Asg1.Threads.Malloc
import Mathlib.Data.List.Nodup
import Mathlib.Data.List.Pairwise

/-!
# `Threads.Arenas` — what the heap of `malloc` looks like

The invariant of the heap, in two parts. `Shape` is about addresses: the arenas are pages that are taken, each block of a
small arena is allocated or free, and blocks do not overlap. `Stored` is about memory: the words of the descriptors, the
headers of the arenas, and the free lists. `Layout` names what is not in memory in so many words, the class of an arena
and the elements of the free lists.
-/

namespace Asg1
namespace Malloc

open Word Flat Kernel List

/-! ## Classes and their blocks -/

/-- The number of descriptors. -/
def CLASSES : Nat := 7

/-- The size of the blocks of a class. -/
def classSize (i : Nat) : Nat := 16 * 2 ^ i

/-- The number of blocks in an arena of a class. -/
def classCount (i : Nat) : Nat := (PGSIZE - ARENA_SIZE) / classSize i

/-- Block `idx` of the arena in a page. -/
def blockAt (page i idx : Nat) : Nat := page + ARENA_SIZE + idx * classSize i

def blocksOf (page i : Nat) : List Nat := (List.range (classCount i)).map (blockAt page i)

/-- Descriptor `i`. -/
def descAt (descs i : Nat) : Nat := descs + DESC_SIZE * i

theorem descAt_eq (descs i : Nat) : descAt descs i = descs + 48 * i := rfl

section Geometry

variable {page i idx idx' b b' : Nat}

theorem classSize_ge (i : Nat) : 16 ≤ classSize i := by
  have hpos : 0 < 2 ^ i := Nat.two_pow_pos i
  unfold classSize
  omega

theorem classSize_le (hi : i < CLASSES) : classSize i ≤ 1024 := by
  have hpow : 2 ^ i ≤ 2 ^ 6 := Nat.pow_le_pow_right (by omega) (Nat.le_of_lt_succ hi)
  unfold classSize
  omega

theorem classCount_mul (i : Nat) : classCount i * classSize i ≤ 4084 := Nat.div_mul_le_self _ _

theorem classCount_le (i : Nat) : classCount i ≤ 255 := by
  have hmul := classCount_mul i
  have hge := classSize_ge i
  have hle : classCount i * 16 ≤ classCount i * classSize i := Nat.mul_le_mul_left _ hge
  omega

theorem classCount_pos (hi : i < CLASSES) : 0 < classCount i := by
  have hle := classSize_le hi
  have hge := classSize_ge i
  have hroom : PGSIZE - ARENA_SIZE = 4084 := rfl
  exact Nat.div_pos (by omega) (by omega)

/-- A block lies in its page, after the header. -/
theorem blockAt_bounds (hidx : idx < classCount i) :
    page + 12 ≤ blockAt page i idx ∧ blockAt page i idx + classSize i ≤ page + 4096 := by
  have hmul := classCount_mul i
  have hnext : (idx + 1) * classSize i ≤ classCount i * classSize i := Nat.mul_le_mul_right _ hidx
  rw [Nat.succ_mul] at hnext
  have hsize : ARENA_SIZE = 12 := rfl
  unfold blockAt
  omega

/-- Two blocks of an arena do not overlap. -/
theorem blockAt_apart (h : idx < idx') : blockAt page i idx + classSize i ≤ blockAt page i idx' := by
  have hnext : (idx + 1) * classSize i ≤ idx' * classSize i := Nat.mul_le_mul_right _ h
  rw [Nat.succ_mul] at hnext
  unfold blockAt
  omega

theorem mem_blocksOf : b ∈ blocksOf page i ↔ ∃ idx < classCount i, b = blockAt page i idx := by
  unfold blocksOf
  rw [List.mem_map]
  constructor
  · rintro ⟨idx, hidx, rfl⟩
    exact ⟨idx, List.mem_range.mp hidx, rfl⟩
  · rintro ⟨idx, hidx, rfl⟩
    exact ⟨idx, List.mem_range.mpr hidx, rfl⟩

theorem block_bounds (hb : b ∈ blocksOf page i) : page + 12 ≤ b ∧ b + classSize i ≤ page + 4096 := by
  obtain ⟨idx, hidx, rfl⟩ := mem_blocksOf.mp hb
  exact blockAt_bounds hidx

theorem block_apart (hb : b ∈ blocksOf page i) (hb' : b' ∈ blocksOf page i) (hne : b ≠ b') :
    b + classSize i ≤ b' ∨ b' + classSize i ≤ b := by
  obtain ⟨idx, -, rfl⟩ := mem_blocksOf.mp hb
  obtain ⟨idx', -, rfl⟩ := mem_blocksOf.mp hb'
  rcases Nat.lt_trichotomy idx idx' with hlt | rfl | hlt
  · exact .inl (blockAt_apart hlt)
  · exact absurd rfl hne
  · exact .inr (blockAt_apart hlt)

theorem length_blocksOf (page i : Nat) : (blocksOf page i).length = classCount i := by
  unfold blocksOf
  rw [length_map, length_range]

theorem nodup_blocksOf (page i : Nat) : (blocksOf page i).Nodup := by
  refine List.Nodup.map ?_ nodup_range
  intro idx idx' heq
  have hge := classSize_ge i
  rcases Nat.lt_trichotomy idx idx' with hlt | rfl | hlt
  · have hapart := @blockAt_apart page i idx idx' hlt
    omega
  · rfl
  · have hapart := @blockAt_apart page i idx' idx hlt
    omega

variable {c j p n i : Nat} {a : Nat × Nat} {blocks : List Nat} {g' : Layout}

theorem pgRoundDown_eq (hpage : page % 4096 = 0) (hlow : page ≤ b) (hhigh : b < page + 4096) (hn : n = page) :
    pgRoundDown b = n := by
  unfold pgRoundDown PGSIZE
  omega

theorem block_page (hpage : page % 4096 = 0) (hb : b ∈ blocksOf page i) : pgRoundDown b = page := by
  have hge := classSize_ge i
  obtain ⟨hlow, hhigh⟩ := block_bounds hb
  exact pgRoundDown_eq hpage (by omega) (by omega) rfl

/-- The assertion of `block_to_arena` about blocks of a class. -/
theorem block_aligned (hpage : page % 4096 = 0) (hb : b ∈ blocksOf page i) :
    (pgOfs b + 4294967296 - ARENA_SIZE) % 4294967296 % classSize i = 0 := by
  have hge := classSize_ge i
  obtain ⟨hlow, hhigh⟩ := block_bounds hb
  obtain ⟨idx, hidx, rfl⟩ := mem_blocksOf.mp hb
  have hofs : (pgOfs (blockAt page i idx) + 4294967296 - ARENA_SIZE) % 4294967296 = idx * classSize i := by
    unfold blockAt ARENA_SIZE at hlow hhigh ⊢
    unfold pgOfs PGSIZE
    omega
  rw [hofs, Nat.mul_mod_left]

end Geometry

/-! ## The shape of the heap -/

/-- The class of the arena in a page (`none` for a big one), and the elements of the free lists. -/
structure Layout where
  cls : Nat → Option Nat
  free : Nat → List Nat

/-- Groups of pages that do not overlap. -/
def PagesApart (a a' : Nat × Nat) : Prop := a.1 + 4096 * a.2 ≤ a'.1 ∨ a'.1 + 4096 * a'.2 ≤ a.1

/-- A group of pages that the heap can use. -/
structure Usable (descs : Nat) (a : Nat × Nat) : Prop where
  aligned : a.1 % 4096 = 0
  nonnull : a.1 ≠ 0
  some : 0 < a.2
  fits : a.1 + 4096 * a.2 ≤ 4294967296
  data : a.1 + 4096 * a.2 ≤ descs ∨ descs + 480 ≤ a.1

/-- `b` is a block of class `i` in an arena in the page `p`. -/
structure Block (taken : List (Nat × Nat)) (g : Layout) (b p i : Nat) : Prop where
  taken : (p, 1) ∈ taken
  cls : g.cls p = some i
  mem : b ∈ blocksOf p i

/-- The room of a block: a block of a small arena, or all of a big one but its header. -/
structure Room (taken : List (Nat × Nat)) (g : Layout) (a : Nat × Nat) (b cap : Nat) : Prop where
  taken : a ∈ taken
  kind : (∃ i, g.cls a.1 = some i ∧ b ∈ blocksOf a.1 i ∧ cap = classSize i) ∨
    (g.cls a.1 = none ∧ b = a.1 + 12 ∧ cap + 12 = 4096 * a.2)

/-- A block that is allocated has room for what was asked for. -/
def Allocated (taken : List (Nat × Nat)) (g : Layout) (b : Nat × Nat) : Prop :=
  ∃ a cap, Room taken g a b.1 cap ∧ b.2 ≤ cap

/-- Where the arenas are, and that the free lists have blocks of their classes. -/
structure Ground (descs : Nat) (taken : List (Nat × Nat)) (g : Layout) : Prop where
  data : descs ≠ 0 ∧ descs + 480 ≤ 4294967296
  usable : ∀ a ∈ taken, Usable descs a
  pages : taken.Pairwise PagesApart
  small : ∀ a ∈ taken, ∀ i, g.cls a.1 = some i → i < CLASSES ∧ a.2 = 1
  freeBlock : ∀ i < CLASSES, ∀ b ∈ g.free i, ∃ p, Block taken g b p i

/-- What holds of the addresses: also, every block of a small arena is either allocated or free. -/
structure Shape (descs : Nat) (taken live : List (Nat × Nat)) (g : Layout) : Prop extends Ground descs taken g where
  freeNodup : ∀ i < CLASSES, (g.free i).Nodup
  liveBlock : ∀ b ∈ live, Allocated taken g b
  liveNodup : (live.map Prod.fst).Nodup
  exclusive : ∀ b ∈ live, ∀ i < CLASSES, b.1 ∉ g.free i
  covered : ∀ b p i, Block taken g b p i → (∃ n, (b, n) ∈ live) ∨ b ∈ g.free i

/-- `a->desc` -/
def descPtr (descs : Nat) : Option Nat → Nat
  | none => 0
  | some i => descAt descs i

/-- `a->free_cnt` -/
def freeCnt (g : Layout) (a : Nat × Nat) : Nat :=
  match g.cls a.1 with
  | none => a.2
  | some i => (g.free i).countP (fun b => pgRoundDown b = a.1)

/-- What is in memory: the descriptors, the free lists and the headers. -/
structure Stored (m : Mem) (descs : Nat) (taken : List (Nat × Nat)) (g : Layout) : Prop where
  desc : ∀ i < CLASSES, ld m (descAt descs i) = classSize i ∧ ld m (descAt descs i + 4) = classCount i
  lists : ∀ i < CLASSES, IsList m (freeList (descAt descs i)) (g.free i)
  magic : ∀ a ∈ taken, ld m a.1 = ARENA_MAGIC
  owner : ∀ a ∈ taken, ld m (a.1 + 4) = descPtr descs (g.cls a.1)

/-- Every arena knows the number of its free blocks. -/
def Counted (m : Mem) (taken : List (Nat × Nat)) (g : Layout) : Prop := ∀ a ∈ taken, ld m (a.1 + 8) = freeCnt g a

section Shape

variable {descs : Nat} {taken live : List (Nat × Nat)} {g : Layout} {b b' p p' i j cap cap' : Nat} {a a' : Nat × Nat}

theorem Block.room (h : Block taken g b p i) : Room taken g (p, 1) b (classSize i) :=
  ⟨h.taken, .inl ⟨i, h.cls, h.mem, rfl⟩⟩

namespace Ground

variable (h : Ground descs taken g)
include h

/-- Two groups of pages do not overlap. -/
theorem apart (ha : a ∈ taken) (ha' : a' ∈ taken) (hne : a ≠ a') : PagesApart a a' := by
  have hsymm : Std.Symm PagesApart := ⟨fun _ _ h => Or.symm h⟩
  exact h.pages.forall ha ha' hne

/-- An arena is known by its page. -/
theorem arena_unique (ha : a ∈ taken) (ha' : a' ∈ taken) (hpage : a.1 = a'.1) : a = a' := by
  by_contra hne
  have hsome := (h.usable a ha).some
  have hsome' := (h.usable a' ha').some
  rcases h.apart ha ha' hne with hle | hle
  · omega
  · omega

/-- A room lies in its arena, after the header. -/
theorem room_bounds (hr : Room taken g a b cap) : a.1 + 12 ≤ b ∧ b + cap ≤ a.1 + 4096 * a.2 := by
  rcases hr.kind with ⟨i, hcls, hb, rfl⟩ | ⟨-, rfl, hcap⟩
  · obtain ⟨-, hone⟩ := h.small a hr.taken i hcls
    have hbounds := block_bounds hb
    omega
  · omega

theorem room_page (hr : Room taken g a b cap) : pgRoundDown b = a.1 := by
  have halign := (h.usable a hr.taken).aligned
  rcases hr.kind with ⟨i, hcls, hb, rfl⟩ | ⟨-, rfl, hcap⟩
  · exact block_page halign hb
  · exact pgRoundDown_eq halign (by omega) (by omega) rfl

/-- The rooms of two blocks do not overlap. -/
theorem rooms_apart (hr : Room taken g a b cap) (hr' : Room taken g a' b' cap') (hne : b ≠ b') :
    b + cap ≤ b' ∨ b' + cap' ≤ b := by
  have hbounds := h.room_bounds hr
  have hbounds' := h.room_bounds hr'
  by_cases heq : a = a'
  · subst heq
    rcases hr.kind with ⟨i, hcls, hb, rfl⟩ | ⟨hcls, rfl, -⟩
    · rcases hr'.kind with ⟨j, hcls', hb', rfl⟩ | ⟨hcls', -, -⟩
      · rw [hcls] at hcls'
        cases hcls'
        exact block_apart hb hb' hne
      · rw [hcls] at hcls'
        cases hcls'
    · rcases hr'.kind with ⟨j, hcls', -, -⟩ | ⟨-, rfl, -⟩
      · rw [hcls] at hcls'
        cases hcls'
      · exact absurd rfl hne
  · rcases h.apart hr.taken hr'.taken heq with hle | hle
    · omega
    · omega

/-- A room does not overlap a header. -/
theorem room_off_header (hr : Room taken g a b cap) (ha' : a' ∈ taken) : b + cap ≤ a'.1 ∨ a'.1 + 12 ≤ b := by
  have hbounds := h.room_bounds hr
  by_cases heq : a = a'
  · subst heq
    omega
  · rcases h.apart hr.taken ha' heq with hle | hle
    · omega
    · omega

/-- A room does not overlap the descriptors. -/
theorem room_off_data (hr : Room taken g a b cap) : b + cap ≤ descs ∨ descs + 480 ≤ b := by
  have hbounds := h.room_bounds hr
  rcases (h.usable a hr.taken).data with hle | hle
  · omega
  · omega

theorem block_class (hb : Block taken g b p i) : i < CLASSES := (h.small _ hb.taken i hb.cls).1

theorem block_page (hb : Block taken g b p i) : pgRoundDown b = p := h.room_page hb.room

/-- A block has one class and one page. -/
theorem block_unique (hb : Block taken g b p i) (hb' : Block taken g b p' j) : p = p' ∧ i = j := by
  have hpage : p = p' := (h.block_page hb).symm.trans (h.block_page hb')
  subst hpage
  have hcls := hb.cls
  rw [hb'.cls] at hcls
  cases hcls
  exact ⟨rfl, rfl⟩

theorem block_isCell (hb : Block taken g b p i) : IsCell b := by
  have hfits := (h.usable _ hb.taken).fits
  have hbounds := h.room_bounds hb.room
  have hge := classSize_ge i
  refine ⟨?_, ?_⟩
  · omega
  · omega

end Ground

end Shape

/-! ## What a write leaves as it is -/

/-- The layout with another free list for a class. -/
def Layout.setFree (g : Layout) (i : Nat) (blocks : List Nat) : Layout :=
  { g with free := fun j => if j = i then blocks else g.free j }

@[simp] theorem setFree_cls (g : Layout) (i : Nat) (blocks : List Nat) : (g.setFree i blocks).cls = g.cls := rfl

theorem setFree_same (g : Layout) (i : Nat) (blocks : List Nat) : (g.setFree i blocks).free i = blocks := if_pos rfl

theorem setFree_other (g : Layout) (blocks : List Nat) (h : j ≠ i) : (g.setFree i blocks).free j = g.free j :=
  if_neg h

theorem mem_setFree {g : Layout} : c ∈ (g.setFree i blocks).free j ↔ (j = i ∧ c ∈ blocks) ∨ (j ≠ i ∧ c ∈ g.free j) := by
  by_cases hne : j = i
  · subst hne
    simp [setFree_same]
  · simp [setFree_other g blocks hne, hne]

section Stored

variable {m m' : Mem} {descs : Nat} {taken live : List (Nat × Nat)} {g : Layout} {i : Nat}

/-- The first words of the descriptors and of the headers, and the lists. -/
theorem Stored.of_same (h : Stored m descs taken g) (hcls : g'.cls = g.cls)
    (hdesc : ∀ i < CLASSES, SameAt m m' (descAt descs i) 8) (hheader : ∀ a ∈ taken, SameAt m m' a.1 8)
    (hlists : ∀ i < CLASSES, IsList m' (freeList (descAt descs i)) (g'.free i)) : Stored m' descs taken g' := by
  refine ⟨?_, hlists, ?_, ?_⟩
  · intro i hi
    obtain ⟨hsize, hcount⟩ := h.desc i hi
    rw [((hdesc i hi).sub (Nat.le_refl _) (by omega)).ld_eq, ((hdesc i hi).sub (by omega) (by omega)).ld_eq]
    exact ⟨hsize, hcount⟩
  · intro a ha
    rw [((hheader a ha).sub (Nat.le_refl _) (by omega)).ld_eq, h.magic a ha]
  · intro a ha
    rw [((hheader a ha).sub (by omega) (by omega)).ld_eq, h.owner a ha, hcls]

/-- Memory of the descriptors, the headers and the links of the free blocks is all that matters. -/
theorem Stored.frame (h : Stored m descs taken g) (hdata : SameAt m m' descs 480)
    (hheader : ∀ a ∈ taken, SameAt m m' a.1 8) (hfree : ∀ i < CLASSES, ∀ b ∈ g.free i, SameAt m m' b 8) :
    Stored m' descs taken g := by
  have hword : ∀ {i k : Nat}, i < CLASSES → k + 8 ≤ 48 → SameAt m m' (descAt descs i + k) 8 := by
    intro i k hi hk
    have hat := descAt_eq descs i
    have hclasses : CLASSES = 7 := rfl
    exact hdata.sub (by omega) (by omega)
  refine h.of_same rfl (fun i hi => hword hi (show 0 + 8 ≤ 48 by omega)) hheader ?_
  intro i hi
  refine (h.lists i hi).frame ?_
  intro c hc
  rcases List.mem_cons.mp hc with rfl | hc
  · exact hword hi (by omega)
  · rcases List.mem_append.mp hc with hc | hc
    · exact hfree i hi c hc
    · rw [List.mem_singleton.mp hc]
      exact hword hi (show 16 + 8 ≤ 48 by omega)

/-- The cells of the free list of a class: the head, the tail and blocks of the class. -/
def ClassCell (descs : Nat) (taken : List (Nat × Nat)) (g : Layout) (i c : Nat) : Prop :=
  c = freeList (descAt descs i) ∨ c = tailOf (freeList (descAt descs i)) ∨ ∃ p, Block taken g c p i

/-- The ends of a list lie in its descriptor. -/
theorem ClassCell.end_or_block (hc : ClassCell descs taken g i c) :
    descs + 48 * i + 8 ≤ c ∧ c + 8 ≤ descs + 48 * i + 24 ∨ ∃ p, Block taken g c p i := by
  have hat := descAt_eq descs i
  rcases hc with rfl | rfl | hb
  · unfold freeList
    exact .inl (by omega)
  · unfold tailOf freeList
    exact .inl (by omega)
  · exact .inr hb

section
variable (hs : Ground descs taken g)
include hs

theorem Ground.cells_class (hi : i < CLASSES)
    (hc : c ∈ cells (freeList (descAt descs i)) (g.free i)) : ClassCell descs taken g i c := by
  rcases List.mem_cons.mp hc with rfl | hc
  · exact .inl rfl
  · rcases List.mem_append.mp hc with hc | hc
    · exact .inr (.inr (hs.freeBlock i hi c hc))
    · exact .inr (.inl (List.mem_singleton.mp hc))

/-- A cell of a class is off the headers. -/
theorem Ground.cell_off_header (hi : i < CLASSES)
    (hc : ClassCell descs taken g i c) (ha : a ∈ taken) : a.1 + 12 ≤ c ∨ c + 8 ≤ a.1 := by
  have hclasses : CLASSES = 7 := rfl
  have hu := hs.usable a ha
  have hsome := hu.some
  have hdata := hu.data
  rcases hc.end_or_block with hin | ⟨p, hb⟩
  · omega
  · have hge := classSize_ge i
    have hoff := hs.room_off_header hb.room ha
    omega

/-- A cell of a class is off the first words of the descriptors. -/
theorem Ground.cell_off_desc (hj : j < CLASSES)
    (hc : ClassCell descs taken g i c) : descAt descs j + 8 ≤ c ∨ c + 8 ≤ descAt descs j := by
  have hat := descAt_eq descs j
  have hclasses : CLASSES = 7 := rfl
  rcases hc.end_or_block with hin | ⟨p, hb⟩
  · omega
  · have hge := classSize_ge i
    have hoff := hs.room_off_data hb.room
    omega

/-- Cells of two classes are apart. -/
theorem Ground.cell_off_class (hi : i < CLASSES) {c' : Nat} (hj : j < CLASSES)
    (hne : j ≠ i) (hc : ClassCell descs taken g i c) (hc' : ClassCell descs taken g j c') : Apart c' c := by
  have hclasses : CLASSES = 7 := rfl
  unfold Apart
  rcases hc.end_or_block with hin | ⟨p, hb⟩
  · rcases hc'.end_or_block with hin' | ⟨p', hb'⟩
    · omega
    · have hoff := hs.room_off_data hb'.room
      omega
  · have hge := classSize_ge i
    rcases hc'.end_or_block with hin' | ⟨p', hb'⟩
    · have hoff := hs.room_off_data hb.room
      omega
    · have hge' := classSize_ge j
      have hdiff : c' ≠ c := by
        rintro rfl
        exact hne (hs.block_unique hb' hb).2
      have hoff := hs.rooms_apart hb'.room hb.room hdiff
      omega

variable {b : Nat} {cs : List Nat}

/-- A block does not overlap the ends of the free lists. -/
theorem Ground.block_off_ends (hi : i < CLASSES) (hb : Block taken g b p i)
    (hc : c ∈ cells (freeList (descAt descs i)) []) : Apart b c := by
  have hoff := hs.room_off_data hb.room
  have hat := descAt_eq descs i
  have hclasses : CLASSES = 7 := rfl
  have hcases : c = descAt descs i + 8 ∨ c = descAt descs i + 16 := by simpa [cells, freeList, tailOf] using hc
  unfold Apart
  omega

/-- A block does not overlap the other cells of its free list. -/
theorem Ground.block_off_cells (hi : i < CLASSES) (hb : Block taken g b p i)
    (hnot : b ∉ g.free i) (hc : c ∈ cells (freeList (descAt descs i)) (g.free i)) : Apart b c := by
  rcases (@mem_cells_append _ c [] (g.free i)).mp hc with hc | hc
  · exact hs.block_off_ends hi hb hc
  · obtain ⟨q, hq⟩ := hs.freeBlock i hi c hc
    have hge := classSize_ge i
    have hne : b ≠ c := by
      rintro rfl
      exact hnot hc
    have hrooms := hs.rooms_apart hb.room hq.room hne
    unfold Apart
    omega

end

/-- The blocks have the bytes they had. -/
def Keeps (live : List (Nat × Nat)) (m m' : Mem) : Prop := ∀ b ∈ live, SameAt m m' b.1 b.2

theorem Keeps.trans {m'' : Mem} (h : Keeps live m m') (h' : Keeps live m' m'') : Keeps live m m'' :=
  fun b hb => (h b hb).trans (h' b hb)

/-- A cell of a class that is none of the given blocks. -/
def SpareCell (descs : Nat) (taken : List (Nat × Nat)) (g : Layout) (kept : List (Nat × Nat)) (i c : Nat) : Prop :=
  ClassCell descs taken g i c ∧ ∀ d ∈ kept, d.1 ≠ c

theorem Shape.cells_spare (hs : Shape descs taken live g) (hi : i < CLASSES)
    (hc : c ∈ cells (freeList (descAt descs i)) (g.free i)) : SpareCell descs taken g live i c := by
  refine ⟨hs.cells_class hi hc, ?_⟩
  rintro d hd rfl
  obtain ⟨a, cap, hroom, -⟩ := hs.liveBlock d hd
  have hoff := hs.room_off_data hroom
  have hat := descAt_eq descs i
  have hclasses : CLASSES = 7 := rfl
  rcases List.mem_cons.mp hc with heq | hc
  · unfold freeList at heq
    omega
  · rcases List.mem_append.mp hc with hc | hc
    · exact hs.exclusive d hd i hi hc
    · have heq := List.mem_singleton.mp hc
      unfold tailOf freeList at heq
      omega

/-- What is done to cells of a class is not seen in other blocks. -/
theorem Ground.keeps_off (hs : Ground descs taken g) (hi : i < CLASSES) {kept : List (Nat × Nat)}
    (hoff : SameOff cs m m') (hcs : ∀ c ∈ cs, SpareCell descs taken g kept i c)
    (hkept : ∀ d ∈ kept, Allocated taken g d) : Keeps kept m m' := by
  intro d hd
  obtain ⟨a, cap, hroom, hle⟩ := hkept d hd
  have hdata := hs.room_off_data hroom
  refine hoff d.1 d.2 ?_
  intro c hc
  obtain ⟨hcell, hne⟩ := hcs c hc
  have hclasses : CLASSES = 7 := rfl
  rcases hcell.end_or_block with hin | ⟨p, hb⟩
  · omega
  · have hge := classSize_ge i
    have happart := hs.rooms_apart hroom hb.room (hne d hd)
    omega

section
variable (h : Stored m descs taken g) (hs : Ground descs taken g)
include h hs

/-- A change of the free list of one class leaves the rest. -/
theorem Stored.relist (hi : i < CLASSES) (hoff : SameOff cs m m') (hcs : ∀ c ∈ cs, ClassCell descs taken g i c)
    (hlist : IsList m' (freeList (descAt descs i)) blocks) :
    Stored m' descs taken (g.setFree i blocks) ∧ ∀ a ∈ taken, SameAt m m' a.1 12 := by
  have hheader : ∀ a ∈ taken, SameAt m m' a.1 12 :=
    fun a ha => hoff a.1 12 (fun c hc => hs.cell_off_header hi (hcs c hc) ha)
  refine ⟨h.of_same rfl (fun j hj => hoff _ 8 (fun c hc => hs.cell_off_desc hj (hcs c hc)))
    (fun a ha => (hheader a ha).sub (Nat.le_refl _) (by omega)) ?_, hheader⟩
  intro j hj
  by_cases hne : j = i
  · subst hne
    rw [setFree_same]
    exact hlist
  · rw [setFree_other g blocks hne]
    refine (h.lists j hj).frame ?_
    intro c' hc'
    exact hoff c' 8 (fun c hc => hs.cell_off_class hi hj hne (hcs c hc) (hs.cells_class hj hc'))

/-- Writing to the room of a block leaves everything. -/
theorem Stored.write_room {cap : Nat} (hr : Room taken g a b cap) (hfree : ∀ i < CLASSES, b ∉ g.free i)
    (hsame : ∀ x n, x + n ≤ b ∨ b + cap ≤ x → SameAt m m' x n) :
    Stored m' descs taken g ∧ ∀ a ∈ taken, SameAt m m' a.1 12 := by
  have hheader : ∀ a ∈ taken, SameAt m m' a.1 12 := by
    intro a' ha'
    have hoff := hs.room_off_header hr ha'
    exact hsame a'.1 12 (by omega)
  refine ⟨h.frame ?_ (fun a ha => (hheader a ha).sub (Nat.le_refl _) (by omega)) ?_, hheader⟩
  · have hoff := hs.room_off_data hr
    exact hsame descs 480 (by omega)
  · intro i hi c hc
    obtain ⟨p, hb⟩ := hs.freeBlock i hi c hc
    have hge := classSize_ge i
    have hne : b ≠ c := by
      rintro rfl
      exact hfree i hi hc
    have hoff := hs.rooms_apart hr hb.room hne
    exact hsame c 8 (by omega)

/-- The count of an arena can be set on its own. -/
theorem Stored.set_count (ha : a ∈ taken) (w : Nat) : Stored (st m (a.1 + 8) w) descs taken g ∧
      (∀ a' ∈ taken, a' ≠ a → ld (st m (a.1 + 8) w) (a'.1 + 8) = ld m (a'.1 + 8)) ∧
      ∀ a' b cap, Room taken g a' b cap → SameAt m (st m (a.1 + 8) w) b cap := by
  have hsome := (hs.usable a ha).some
  have hroom : ∀ a' b cap, Room taken g a' b cap → SameAt m (st m (a.1 + 8) w) b cap := by
    intro a' b cap hr
    have hoff := hs.room_off_header hr ha
    exact sameAt_st (by omega)
  have hother : ∀ a' ∈ taken, a' ≠ a → a'.1 + 12 ≤ a.1 ∨ a.1 + 12 ≤ a'.1 := by
    intro a' ha' hne
    have hsome' := (hs.usable a' ha').some
    rcases hs.apart ha' ha hne with hle | hle
    · omega
    · omega
  refine ⟨h.frame ?_ ?_ ?_, ?_, hroom⟩
  · rcases (hs.usable a ha).data with hle | hle
    · exact sameAt_st (by omega)
    · exact sameAt_st (by omega)
  · intro a' ha'
    by_cases heq : a' = a
    · subst heq
      exact sameAt_st (by omega)
    · have hoff := hother a' ha' heq
      exact sameAt_st (by omega)
  · intro i hi c hc
    obtain ⟨p, hb⟩ := hs.freeBlock i hi c hc
    have hge := classSize_ge i
    exact (hroom _ _ _ hb.room).sub (Nat.le_refl _) (by omega)
  · intro a' ha' hne
    have hoff := hother a' ha' hne
    exact ld_st_other (by omega)

end

end Stored

/-! ## Blocks that change hands -/

section Exchange

variable {descs : Nat} {taken live : List (Nat × Nat)} {g : Layout} {b p i n : Nat} {blocks : List Nat}

theorem Block.setFree (h : Block taken g b p j) (i : Nat) (blocks : List Nat) :
    Block taken (g.setFree i blocks) b p j := ⟨h.taken, h.cls, h.mem⟩

theorem Allocated.setFree {c : Nat × Nat} (h : Allocated taken g c) (i : Nat) (blocks : List Nat) :
    Allocated taken (g.setFree i blocks) c := by
  obtain ⟨a, cap, hroom, hle⟩ := h
  exact ⟨a, cap, ⟨hroom.taken, hroom.kind⟩, hle⟩

theorem setFree_self (g : Layout) (i : Nat) : g.setFree i (g.free i) = g := by
  unfold Layout.setFree
  congr
  funext j
  split
  · rename_i hj
    rw [hj]
  · rfl

theorem Shape.nodup_setFree (hs : Shape descs taken live g) (hnodup : blocks.Nodup) :
    ∀ j < CLASSES, ((g.setFree i blocks).free j).Nodup := by
  intro j hj
  by_cases hne : j = i
  · subst hne
    rw [setFree_same]
    exact hnodup
  · rw [setFree_other g blocks hne]
    exact hs.freeNodup j hj

/-- The first free block of a class is allocated. -/
theorem Shape.take (hs : Shape descs taken live g) (hi : i < CLASSES) (hfree : g.free i = b :: blocks)
    (hn : n ≤ classSize i) : Shape descs taken ((b, n) :: live) (g.setFree i blocks) := by
  obtain ⟨p, hb⟩ := hs.freeBlock i hi b (by rw [hfree]; exact mem_cons_self)
  have hnodup := hs.freeNodup i hi
  rw [hfree] at hnodup
  obtain ⟨hnot, hnodup⟩ := List.nodup_cons.mp hnodup
  have hsub : ∀ j < CLASSES, ∀ c ∈ (g.setFree i blocks).free j, c ∈ g.free j := by
    intro j hj c hc
    rcases mem_setFree.mp hc with ⟨rfl, hin⟩ | ⟨-, hin⟩
    · rw [hfree]
      exact mem_cons_of_mem _ hin
    · exact hin
  refine ⟨⟨hs.data, hs.usable, hs.pages, hs.small, ?_⟩, hs.nodup_setFree hnodup, ?_, ?_, ?_, ?_⟩
  · intro j hj c hc
    obtain ⟨q, hq⟩ := hs.freeBlock j hj c (hsub j hj c hc)
    exact ⟨q, hq.setFree i blocks⟩
  · intro c hc
    rcases List.mem_cons.mp hc with rfl | hc
    · exact ⟨(p, 1), classSize i, (hb.setFree i blocks).room, hn⟩
    · exact (hs.liveBlock c hc).setFree i blocks
  · rw [map_cons, nodup_cons]
    refine ⟨?_, hs.liveNodup⟩
    intro hmem
    obtain ⟨c, hc, heq⟩ := List.mem_map.mp hmem
    refine hs.exclusive c hc i hi ?_
    rw [heq, hfree]
    exact mem_cons_self
  · intro c hc j hj hin
    rcases List.mem_cons.mp hc with rfl | hc
    · rcases mem_setFree.mp hin with ⟨-, hin⟩ | ⟨hne, hin⟩
      · exact hnot hin
      · obtain ⟨q, hq⟩ := hs.freeBlock j hj _ hin
        exact hne (hs.block_unique hq hb).2
    · exact hs.exclusive c hc j hj (hsub j hj _ hin)
  · intro c q j hq
    have hold : Block taken g c q j := ⟨hq.taken, hq.cls, hq.mem⟩
    rcases hs.covered c q j hold with ⟨k, hk⟩ | hin
    · exact .inl ⟨k, mem_cons_of_mem _ hk⟩
    · by_cases hne : j = i
      · subst hne
        rw [hfree] at hin
        rcases List.mem_cons.mp hin with rfl | hin
        · exact .inl ⟨n, mem_cons_self⟩
        · exact .inr (mem_setFree.mpr (.inl ⟨rfl, hin⟩))
      · exact .inr (mem_setFree.mpr (.inr ⟨hne, hin⟩))

theorem mem_without {c : Nat × Nat} {q : Option Nat} : c ∈ without live q ↔ c ∈ live ∧ some c.1 ≠ q := by
  unfold without
  simp

/-- A block of a class that was allocated goes to the front of its free list. -/
theorem Shape.give (hs : Shape descs taken live g) (hb : Block taken g b p i) (hlive : (b, n) ∈ live) :
    Shape descs taken (without live (some b)) (g.setFree i (b :: g.free i)) := by
  have hi := hs.block_class hb
  have hnot : ∀ j < CLASSES, b ∉ g.free j := hs.exclusive _ hlive
  have hmem : ∀ j c, c ∈ (g.setFree i (b :: g.free i)).free j ↔ (j = i ∧ c = b) ∨ c ∈ g.free j := by
    intro j c
    rw [mem_setFree, mem_cons]
    by_cases hne : j = i
    · simp [hne]
    · simp [hne]
  refine ⟨⟨hs.data, hs.usable, hs.pages, hs.small, ?_⟩,
    hs.nodup_setFree (List.nodup_cons.mpr ⟨hnot i hi, hs.freeNodup i hi⟩), ?_, ?_, ?_, ?_⟩
  · intro j hj c hc
    rcases (hmem j c).mp hc with ⟨rfl, rfl⟩ | hc
    · exact ⟨p, hb.setFree _ _⟩
    · obtain ⟨q, hq⟩ := hs.freeBlock j hj c hc
      exact ⟨q, hq.setFree _ _⟩
  · intro c hc
    exact (hs.liveBlock c (mem_without.mp hc).1).setFree _ _
  · exact hs.liveNodup.sublist (List.filter_sublist.map _)
  · intro c hc j hj hin
    obtain ⟨hcl, hcne⟩ := mem_without.mp hc
    rcases (hmem j c.1).mp hin with ⟨-, heq⟩ | hin
    · exact hcne (by rw [heq])
    · exact hs.exclusive c hcl j hj hin
  · intro c q j hq
    have hold : Block taken g c q j := ⟨hq.taken, hq.cls, hq.mem⟩
    by_cases hcb : c = b
    · subst hcb
      exact .inr ((hmem j c).mpr (.inl ⟨(hs.block_unique hold hb).2, rfl⟩))
    · rcases hs.covered c q j hold with ⟨k, hk⟩ | hin
      · exact .inl ⟨k, mem_without.mpr ⟨hk, fun heq => hcb (Option.some.inj heq)⟩⟩
      · exact .inr ((hmem j c).mpr (.inr hin))

/-- One more free block in an arena. -/
theorem freeCnt_cons (hcls : g.cls p = some i) (hpage : pgRoundDown b = p) (k : Nat) :
    freeCnt (g.setFree i (b :: blocks)) (p, k) = freeCnt (g.setFree i blocks) (p, k) + 1 := by
  unfold freeCnt
  simp only [setFree_cls, hcls, setFree_same]
  rw [countP_cons_of_pos (by simpa using hpage)]

/-- A free block counts in its own arena only. -/
theorem freeCnt_other (hpage : pgRoundDown b ≠ a.1) :
    freeCnt (g.setFree i (b :: blocks)) a = freeCnt (g.setFree i blocks) a := by
  unfold freeCnt
  simp only [setFree_cls]
  cases hcls : g.cls a.1 with
  | none => rfl
  | some j =>
    by_cases hne : j = i
    · subst hne
      simp only [setFree_same]
      rw [countP_cons_of_neg (by simpa using hpage)]
    · simp only [setFree_other g _ hne]

end Exchange

/-! ## Arenas that come and go -/

/-- A group of pages that can become an arena. -/
structure Fresh (descs : Nat) (taken : List (Nat × Nat)) (a : Nat × Nat) : Prop where
  usable : Usable descs a
  apart : ∀ a' ∈ taken, PagesApart a a'

/-- The layout with another class for a page. -/
def Layout.setCls (g : Layout) (p : Nat) (c : Option Nat) : Layout :=
  { g with cls := fun q => if q = p then c else g.cls q }

@[simp] theorem setCls_free (g : Layout) (p : Nat) (c : Option Nat) : (g.setCls p c).free = g.free := rfl

theorem setCls_same (g : Layout) (p : Nat) (c : Option Nat) : (g.setCls p c).cls p = c := if_pos rfl

theorem setCls_other (g : Layout) (c : Option Nat) {q : Nat} (h : q ≠ p) : (g.setCls p c).cls q = g.cls q := if_neg h

/-- Memory with the header of an arena. -/
def withHeader (m : Mem) (p d w : Nat) : Mem := st (st (st m p ARENA_MAGIC) (p + 4) d) (p + 8) w

section Pages

variable {m m' : Mem} {descs : Nat} {taken live : List (Nat × Nat)} {g : Layout} {a : Nat × Nat} {b p q i j k cap : Nat}
  {c : Option Nat}

/-- What is done to a page outside the arenas is not seen in the heap. -/
theorem Stored.frame_page (h : Stored m descs taken g) (hs : Ground descs taken g) (hf : Fresh descs taken (p, k))
    (hsame : ∀ x n, x + n ≤ p ∨ p + 4096 * k ≤ x → SameAt m m' x n) :
    Stored m' descs taken g ∧ (∀ a ∈ taken, SameAt m m' a.1 12) ∧
      ∀ kept, (∀ d ∈ kept, Allocated taken g d) → Keeps kept m m' := by
  have hheader : ∀ a ∈ taken, SameAt m m' a.1 12 := by
    intro a ha
    have hsome := (hs.usable a ha).some
    rcases hf.apart a ha with hle | hle
    · exact hsame _ _ (.inr hle)
    · exact hsame _ _ (.inl (by simp only at hle; omega))
  have hroom : ∀ {a b cap}, Room taken g a b cap → SameAt m m' b cap := by
    intro a b cap hr
    have hbounds := hs.room_bounds hr
    rcases hf.apart a hr.taken with hle | hle
    · exact hsame _ _ (.inr (by simp only at hle; omega))
    · exact hsame _ _ (.inl (by simp only at hle; omega))
  refine ⟨h.frame ?_ (fun a ha => (hheader a ha).sub (Nat.le_refl _) (by omega)) ?_, hheader, ?_⟩
  · rcases hf.usable.data with hle | hle
    · exact hsame _ _ (.inr hle)
    · exact hsame _ _ (.inl hle)
  · intro i hi b hb
    obtain ⟨q, hq⟩ := hs.freeBlock i hi b hb
    have hge := classSize_ge i
    exact (hroom hq.room).sub (Nat.le_refl _) (by omega)
  · intro kept hkept d hd
    obtain ⟨a, cap, hr, hle⟩ := hkept d hd
    exact (hroom hr).sub (Nat.le_refl _) (by omega)

/-- A block of an arena other than the new one was there before. -/
theorem Block.of_add (hb : Block ((p, k) :: taken) (g.setCls p c) b q i) (hne : q ≠ p) : Block taken g b q i := by
  refine ⟨?_, ?_, hb.mem⟩
  · rcases List.mem_cons.mp hb.taken with heq | hmem
    · exact absurd (congrArg Prod.fst heq) hne
    · exact hmem
  · rw [← setCls_other g c hne]
    exact hb.cls

section Add

variable (hs : Ground descs taken g) (hf : Fresh descs taken (p, k))
include hs hf

theorem Fresh.page_ne (ha : a ∈ taken) : a.1 ≠ p := by
  have hsome := (hs.usable a ha).some
  have hsome' : 0 < k := hf.usable.some
  rcases hf.apart a ha with hle | hle
  · omega
  · omega

theorem Room.add (hr : Room taken g a b cap) : Room ((p, k) :: taken) (g.setCls p c) a b cap := by
  refine ⟨mem_cons_of_mem _ hr.taken, ?_⟩
  rw [setCls_other g c (hf.page_ne hs hr.taken)]
  exact hr.kind

theorem Allocated.add {d : Nat × Nat} (hd : Allocated taken g d) : Allocated ((p, k) :: taken) (g.setCls p c) d := by
  obtain ⟨a, cap, hr, hle⟩ := hd
  exact ⟨a, cap, hr.add hs hf, hle⟩

theorem Block.add (hb : Block taken g b q i) : Block ((p, k) :: taken) (g.setCls p c) b q i := by
  refine ⟨mem_cons_of_mem _ hb.taken, ?_, hb.mem⟩
  rw [setCls_other g c (hf.page_ne hs hb.taken)]
  exact hb.cls

theorem Ground.add (hc : ∀ i, c = some i → i < CLASSES ∧ k = 1) : Ground descs ((p, k) :: taken) (g.setCls p c) := by
  refine ⟨hs.data, ?_, List.pairwise_cons.mpr ⟨hf.apart, hs.pages⟩, ?_, ?_⟩
  · intro a ha
    rcases List.mem_cons.mp ha with rfl | ha
    · exact hf.usable
    · exact hs.usable a ha
  · intro a ha i hcls
    rcases List.mem_cons.mp ha with rfl | ha
    · rw [setCls_same] at hcls
      exact hc i hcls
    · rw [setCls_other g c (hf.page_ne hs ha)] at hcls
      exact hs.small a ha i hcls
  · intro i hi b hb
    obtain ⟨q, hq⟩ := hs.freeBlock i hi b hb
    exact ⟨q, hq.add hs hf⟩

/-- A header makes a page an arena. -/
theorem Stored.add (h : Stored m descs taken g) (hdesc : descPtr descs c < 4294967296) (w : Nat) :
    Stored (withHeader m p (descPtr descs c) w) descs ((p, k) :: taken) (g.setCls p c) ∧
      (∀ a ∈ taken, SameAt m (withHeader m p (descPtr descs c) w) a.1 12) ∧
      ∀ kept, (∀ d ∈ kept, Allocated taken g d) →
        Keeps kept m (withHeader m p (descPtr descs c) w) := by
  have hsome : 0 < k := hf.usable.some
  have hsame : ∀ x n, x + n ≤ p ∨ p + 4096 * k ≤ x →
      SameAt m (withHeader m p (descPtr descs c) w) x n :=
    fun x n hoff => ((sameAt_st (by omega)).trans (sameAt_st (by omega))).trans (sameAt_st (by omega))
  obtain ⟨hstored, hheader, hkept⟩ := h.frame_page hs hf hsame
  refine ⟨⟨hstored.desc, hstored.lists, ?_, ?_⟩, hheader, hkept⟩
  · intro a ha
    rcases List.mem_cons.mp ha with rfl | ha
    · unfold withHeader
      rw [ld_st_other (by omega), ld_st_other (by omega), ld_st_self (by decide)]
    · exact hstored.magic a ha
  · intro a ha
    rcases List.mem_cons.mp ha with rfl | ha
    · unfold withHeader
      rw [ld_st_other (by omega), ld_st_self hdesc, setCls_same]
    · rw [setCls_other g c (hf.page_ne hs ha)]
      exact hstored.owner a ha

end Add

/-- A new arena for one big block. -/
theorem Shape.add_big (hs : Shape descs taken live g) (hf : Fresh descs taken (p, k)) (hn : n + 12 ≤ 4096 * k) :
    Shape descs ((p, k) :: taken) ((p + 12, n) :: live) (g.setCls p none) := by
  have hground := hs.toGround
  have hroom : Room ((p, k) :: taken) (g.setCls p none) (p, k) (p + 12) (4096 * k - 12) :=
    ⟨mem_cons_self, .inr ⟨setCls_same g p none, rfl, by simp only; omega⟩⟩
  have hadd : Ground descs ((p, k) :: taken) (g.setCls p none) := hground.add hf (by simp)
  -- what was there before lies in other pages
  have hother : ∀ {a b cap}, Room taken g a b cap → b ≠ p + 12 := by
    rintro a b cap hr rfl
    have hpage := hadd.room_page (hr.add hground hf)
    rw [hadd.room_page hroom] at hpage
    exact hf.page_ne hground hr.taken hpage.symm
  refine ⟨hadd, hs.freeNodup, ?_, ?_, ?_, ?_⟩
  · intro d hd
    rcases List.mem_cons.mp hd with rfl | hd
    · exact ⟨(p, k), 4096 * k - 12, hroom, by simp only; omega⟩
    · exact (hs.liveBlock d hd).add hground hf
  · rw [map_cons, nodup_cons]
    refine ⟨?_, hs.liveNodup⟩
    intro hmem
    obtain ⟨d, hd, heq⟩ := List.mem_map.mp hmem
    obtain ⟨a, cap, hr, -⟩ := hs.liveBlock d hd
    exact hother hr heq
  · intro d hd i hi hin
    rcases List.mem_cons.mp hd with rfl | hd
    · obtain ⟨q, hq⟩ := hs.freeBlock i hi _ hin
      exact hother hq.room rfl
    · exact hs.exclusive d hd i hi hin
  · intro b q i hb
    have hne : q ≠ p := by
      rintro rfl
      have hcls := hb.cls
      rw [setCls_same] at hcls
      cases hcls
    rcases hs.covered b q i (hb.of_add hne) with ⟨n', hn'⟩ | hin
    · exact .inl ⟨n', mem_cons_of_mem _ hn'⟩
    · exact .inr hin

/-- A new arena for a class that has no free blocks: all its blocks are free. -/
theorem Shape.add_small (hs : Shape descs taken live g) (hf : Fresh descs taken (p, 1)) (hi : i < CLASSES)
    (hfree : g.free i = []) : Shape descs ((p, 1) :: taken) live ((g.setCls p (some i)).setFree i (blocksOf p i)) := by
  have hground := hs.toGround
  have hadd : Ground descs ((p, 1) :: taken) (g.setCls p (some i)) :=
    hground.add hf (fun j hj => by cases hj; exact ⟨hi, rfl⟩)
  have hnew : ∀ b ∈ blocksOf p i, Block ((p, 1) :: taken) (g.setCls p (some i)) b p i :=
    fun b hb => ⟨mem_cons_self, setCls_same g p _, hb⟩
  refine ⟨⟨hadd.data, hadd.usable, hadd.pages, hadd.small, ?_⟩, hs.nodup_setFree (nodup_blocksOf p i), ?_,
    hs.liveNodup, ?_, ?_⟩
  · intro j hj b hb
    rcases mem_setFree.mp hb with ⟨rfl, hb⟩ | ⟨-, hb⟩
    · exact ⟨p, (hnew b hb).setFree _ _⟩
    · obtain ⟨q, hq⟩ := hadd.freeBlock j hj b hb
      exact ⟨q, hq.setFree _ _⟩
  · intro d hd
    exact ((hs.liveBlock d hd).add hground hf).setFree _ _
  · intro d hd j hj hin
    rcases mem_setFree.mp hin with ⟨-, hin⟩ | ⟨-, hin⟩
    · obtain ⟨a, cap, hr, -⟩ := hs.liveBlock d hd
      have hpage := hadd.room_page (hr.add hground hf)
      rw [hadd.block_page (hnew _ hin)] at hpage
      exact hf.page_ne hground hr.taken hpage.symm
    · exact hs.exclusive d hd j hj hin
  · intro b q j hb
    have hold : Block ((p, 1) :: taken) (g.setCls p (some i)) b q j := ⟨hb.taken, hb.cls, hb.mem⟩
    by_cases hqp : q = p
    · subst hqp
      have hj : some i = some j := (setCls_same g q (some i)).symm.trans hold.cls
      cases hj
      exact .inr (mem_setFree.mpr (.inl ⟨rfl, hb.mem⟩))
    · rcases hs.covered b q j (hold.of_add hqp) with hlive | hin
      · exact .inl hlive
      · have hne : j ≠ i := by
          rintro rfl
          rw [hfree] at hin
          cases hin
        exact .inr (mem_setFree.mpr (.inr ⟨hne, hin⟩))

/-- The layout without the free blocks of a page. -/
def Layout.drop (g : Layout) (p : Nat) : Layout :=
  { g with free := fun j => (g.free j).filter fun b => pgRoundDown b ≠ p }

theorem mem_drop : b ∈ (g.drop p).free i ↔ b ∈ g.free i ∧ pgRoundDown b ≠ p := by
  unfold Layout.drop
  simp

theorem Block.drop (hb : Block taken g b q i) (hne : q ≠ a.1) : Block (taken.erase a) (g.drop a.1) b q i :=
  ⟨(mem_erase_of_ne (fun heq => hne (congrArg Prod.fst heq))).mpr hb.taken, hb.cls, hb.mem⟩

section Drop

variable (hs : Ground descs taken g)
include hs

theorem Ground.erase_not_mem : a ∉ taken.erase a := by
  have hnodup : taken.Nodup := by
    refine hs.pages.imp_of_mem ?_
    rintro x y hx - hapart rfl
    have hsome := (hs.usable x hx).some
    unfold PagesApart at hapart
    omega
  exact hnodup.not_mem_erase

/-- Pages that are given back are apart from the arenas that stay. -/
theorem Ground.fresh_erase (ha : a ∈ taken) : Fresh descs (taken.erase a) a := by
  refine ⟨hs.usable a ha, ?_⟩
  intro a' ha'
  have hne : a' ≠ a := by
    rintro rfl
    exact hs.erase_not_mem ha'
  exact Or.symm (hs.apart (mem_of_mem_erase ha') ha hne)

theorem Ground.drop : Ground descs (taken.erase a) (g.drop a.1) := by
  refine ⟨hs.data, fun a' ha' => hs.usable a' (mem_of_mem_erase ha'), hs.pages.sublist erase_sublist,
    fun a' ha' => hs.small a' (mem_of_mem_erase ha'), ?_⟩
  intro i hi b hb
  obtain ⟨hb, hpage⟩ := mem_drop.mp hb
  obtain ⟨q, hq⟩ := hs.freeBlock i hi b hb
  rw [hs.block_page hq] at hpage
  exact ⟨q, hq.drop hpage⟩

/-- The free blocks of a page all have the class of its arena. -/
theorem Ground.drop_free (hj : j < CLASSES) (hcls : g.cls a.1 ≠ some j) : (g.drop a.1).free j = g.free j := by
  refine List.filter_eq_self.mpr ?_
  intro b hb
  obtain ⟨q, hq⟩ := hs.freeBlock j hj b hb
  have hpage := hs.block_page hq
  refine decide_eq_true ?_
  rintro heq
  rw [hpage] at heq
  subst heq
  exact hcls hq.cls

end Drop

/-- An arena without blocks in use is given back. -/
theorem Shape.drop (hs : Shape descs taken live g) (ha : a ∈ taken) (hlive : ∀ d ∈ live, pgRoundDown d.1 ≠ a.1) :
    Shape descs (taken.erase a) live (g.drop a.1) := by
  have hground := hs.toGround
  refine ⟨hground.drop, fun i hi => (hs.freeNodup i hi).filter _, ?_, hs.liveNodup, ?_, ?_⟩
  · intro d hd
    obtain ⟨a', cap, hr, hle⟩ := hs.liveBlock d hd
    have hpage := hlive d hd
    rw [hs.room_page hr] at hpage
    exact ⟨a', cap, ⟨(mem_erase_of_ne (fun heq => hpage (congrArg Prod.fst heq))).mpr hr.taken, hr.kind⟩, hle⟩
  · intro d hd i hi hin
    exact hs.exclusive d hd i hi (mem_drop.mp hin).1
  · intro b q i hb
    have hold : Block taken g b q i := ⟨mem_of_mem_erase hb.taken, hb.cls, hb.mem⟩
    rcases hs.covered b q i hold with hl | hin
    · exact .inl hl
    · refine .inr (mem_drop.mpr ⟨hin, ?_⟩)
      rw [hs.block_page hold]
      intro heq
      have hself := hs.arena_unique hold.taken ha heq
      exact hs.erase_not_mem (hself ▸ hb.taken)

/-- The free blocks of the other pages are counted as before. -/
theorem freeCnt_drop (hne : a.1 ≠ p) : freeCnt (g.drop p) a = freeCnt g a := by
  have hcls : (g.drop p).cls a.1 = g.cls a.1 := rfl
  unfold freeCnt
  rw [hcls]
  cases g.cls a.1 with
  | none => rfl
  | some i =>
    show ((g.free i).filter _).countP _ = _
    rw [countP_filter]
    refine countP_congr ?_
    intro b _
    by_cases hb : pgRoundDown b = a.1
    · simp [hb, hne]
    · simp [hb]

theorem Stored.congr (h : Stored m descs taken g) (hcls : g'.cls = g.cls)
    (hfree : ∀ i < CLASSES, g'.free i = g.free i) : Stored m descs taken g' := by
  refine ⟨h.desc, ?_, h.magic, ?_⟩
  · intro i hi
    rw [hfree i hi]
    exact h.lists i hi
  · rw [hcls]
    exact h.owner

/-- The heap without an arena. -/
theorem Stored.erase (h : Stored m descs taken g) : Stored m descs (taken.erase a) g :=
  ⟨h.desc, h.lists, fun a' ha' => h.magic a' (mem_of_mem_erase ha'), fun a' ha' => h.owner a' (mem_of_mem_erase ha')⟩

end Pages

end Malloc
end Asg1

import Asg1.Threads.HeapRuns

/-!
# `Threads.Sizes` — a block has the bytes that were asked for

The header of an arena is added to a request and the sum is rounded up to pages in 32 bits. A request whose sum with the
header still fits gets enough pages, or none when the rounding wraps around. The eleven largest sizes wrap around in the
sum itself and get one page, and `calloc` lets some products through that have wrapped around.
-/

namespace Asg1
namespace Malloc

variable {h : Heap} {live : List (Nat × Nat)} {g : Layout} {pager : Pager} {c : Call}

/-- The number of bytes that a request asks for, by exact arithmetic. -/
def asked : Call → Nat
  | .malloc size => size
  | .calloc a b => a * b
  | .realloc _ size => size
  | _ => 0

variable {n b : Nat} {x : K (Option Nat)}

/-- **A block lies in the address space**, behind a page that is not null and the header. -/
theorem Inv.cap_le (hv : Inv h live g) (hb : (b, n) ∈ live) :
    ∃ cap, Capacity h b cap ∧ n ≤ cap ∧ cap + 4108 ≤ 4294967296 := by
  obtain ⟨a, cap, hroom, hle⟩ := hv.shape.liveBlock _ hb
  obtain ⟨hlow, hhigh⟩ := hv.shape.room_bounds hroom
  obtain ⟨hpos, haligned, -, hend, -⟩ := hv.shape.usable a hroom.taken
  refine ⟨cap, hv.blockSize hroom, hle, ?_⟩
  omega

/-- What holds of a request for `n` bytes. -/
def Sized (x : K (Option Nat)) (h : Heap) (n : Nat) : Prop :=
  ∃ r h', x h = some (r, h') ∧ (∀ b, r = some b → ∃ cap, Capacity h' b cap ∧ n ≤ cap) ∧
    (4294967296 < n + 4108 → r = none)

theorem sized_of_none {k : Heap} (hx : x h = some (none, k)) (n : Nat) : Sized x h n :=
  ⟨none, k, hx, nofun, fun _ => rfl⟩

/-- A block that the heap has is large enough, so a request that is too large has no block. -/
theorem Inv.sized {h' : Heap} (hv : Inv h' ((b, n) :: live) g) (hx : x h = some (some b, h')) : Sized x h n := by
  obtain ⟨cap, hcap, hle, hmax⟩ := hv.cap_le List.mem_cons_self
  refine ⟨some b, h', hx, ?_, ?_⟩
  · rintro _ ⟨⟩
    exact ⟨cap, hcap, hle⟩
  · intro hlarge
    omega

theorem Answers.sized (ha : Answers x h live n) : Sized x h n := by
  obtain ⟨r, h', hrun, -, hsome⟩ := ha
  cases r with
  | none => exact sized_of_none hrun n
  | some b =>
    obtain ⟨⟨g', hv'⟩, -⟩ := hsome b rfl
    exact hv'.sized hrun

end Malloc
end Asg1

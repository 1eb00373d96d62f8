import Asg1.Filesys.Transfer

/-!
# `Filesys.FlatIo` — transfers through an inode as transfers of flat bytes

What a caller sees of `inode_read_at` and `inode_write_at`, for an inode whose sectors lie on the device, when writes are
not denied and there is memory for the bounce buffer: how many bytes are transferred, which bytes of the device change,
that what was written is read back, and that a transfer may be split anywhere.
-/

namespace Asg1
namespace Volume

open Filesys Flat

/-- A number that is not negative and fits an `off_t`. -/
def IsOffset (x : Int) : Prop := 0 ≤ x ∧ x < 2147483648

/-- The next `malloc` succeeds. -/
def CanBounce (s : Vol) : Prop := s.mem.headD true = true

/-- `n` bytes from address `a` on are those of the buffer, and no other byte of the device has changed. -/
structure Writes (d d' : Device) (a n : Nat) (buffer : List UInt8) : Prop where
  inside : ∀ k < n, buffer[k]? = some (d' (a + k))
  outside : ∀ x, x < a ∨ a + n ≤ x → d' x = d x

/-- **A transfer of `n` bytes** at an offset of an open inode. -/
structure FlatTransfer (s : Vol) (i : Addr) (buffer : List UInt8) (size offset : Int) (n : Nat) : Prop where
  write : ∃ s', inodeWriteAt i buffer size offset s = some (n, s') ∧
    Writes s.device s'.device ((s.inode i).data.start * 512 + offset.toNat) n buffer ∧
    s' = { s with device := s'.device, mem := s'.mem }
  read : ∃ s', inodeReadAt i size offset s =
    some (slice s.device ((s.inode i).data.start * 512 + offset.toNat) n, s') ∧ s' = { s with mem := s'.mem }
  read_back : ∀ s', inodeWriteAt i buffer size offset s = some (n, s') → CanBounce s' →
    ∃ s'', inodeReadAt i size offset s' = some (buffer.take n, s'')
  split_write : ∀ size₁ size₂, 0 ≤ size₁ → 0 ≤ size₂ → size₁ + size₂ = size → IsOffset (offset + size₁) →
    ∃ n₁ s₁, inodeWriteAt i buffer size₁ offset s = some (n₁, s₁) ∧ (CanBounce s₁ →
      ∃ n₂ s₂, inodeWriteAt i (buffer.drop size₁.toNat) size₂ (offset + size₁) s₁ = some (n₂, s₂) ∧
        ∃ s', inodeWriteAt i buffer size offset s = some (n₁ + n₂, s') ∧ s₂.device = s'.device)
  split_read : ∀ size₁ size₂, 0 ≤ size₁ → 0 ≤ size₂ → size₁ + size₂ = size → IsOffset (offset + size₁) →
    ∃ bytes₁ s₁, inodeReadAt i size₁ offset s = some (bytes₁, s₁) ∧ (CanBounce s₁ →
      ∃ bytes₂ s₂, inodeReadAt i size₂ (offset + size₁) s₁ = some (bytes₂, s₂) ∧
        ∃ s', inodeReadAt i size offset s = some (bytes₁ ++ bytes₂, s'))

/-! ## Patches and their parts -/

variable {d : Device} {a n c m : Nat} {buffer : List UInt8} {size offset : Int} {data : InodeDisk}

theorem writes_patch (h : n ≤ buffer.length) : Writes d (patch d a (buffer.take n)) a n buffer := by
  have hlen : (buffer.take n).length = n := List.length_take_of_le h
  constructor
  · intro k hk
    rw [patch_inside (hlen.symm ▸ hk), List.getElem_take, List.getElem?_eq_getElem]
  · intro x hx
    exact patch_outside (by rw [hlen]; exact hx)

theorem avail_eq (hsize : 0 ≤ size) (hoff : 0 ≤ offset) :
    (avail data size offset : Int) = max 0 (min size (data.length - offset)) := by
  unfold avail
  omega

theorem avail_le : avail data size offset ≤ size.toNat := Nat.min_le_left _ _

/-- What is left after the first part. -/
theorem avail_split (data : InodeDisk) {size₁ size₂ : Int} (hsize₁ : 0 ≤ size₁) (hsize₂ : 0 ≤ size₂)
    (hoff : 0 ≤ offset) :
    avail data (size₁ + size₂) offset = avail data size₁ offset + avail data size₂ (offset + size₁) ∧
      (avail data size₁ offset = size₁.toNat ∨ avail data size₂ (offset + size₁) = 0) := by
  unfold avail
  omega

/-- A patch in two parts; the second part is empty unless the first is complete. -/
theorem patch_split (hbuffer : c ≤ buffer.length) (hn : n = c ∨ m = 0) :
    patch (patch d a (buffer.take n)) (a + c) ((buffer.drop c).take m) = patch d a (buffer.take (n + m)) := by
  rcases hn with rfl | rfl
  · have hlen : (buffer.take n).length = n := List.length_take_of_le hbuffer
    have happend : patch (patch d a (buffer.take n)) (a + (buffer.take n).length) ((buffer.drop n).take m) =
        patch d a (buffer.take n ++ (buffer.drop n).take m) := patch_append
    rw [hlen] at happend
    rw [happend, List.take_add]
  · simp

theorem slice_split (hn : n = c ∨ m = 0) : slice d a n ++ slice d (a + c) m = slice d a (n + m) := by
  rw [slice_add]
  rcases hn with rfl | rfl
  · rfl
  · simp [slice]

/-! ## The two functions -/

section
variable {s : Vol} {i : Addr} {offset : Int}

theorem inodeWriteAt_flat (buffer : List UInt8) (size : Int) (hopen : i ∈ s.openInodes) (hallowed : (s.inode i).denyWriteCnt = 0)
    (hfits : Fits s.blocks (s.inode i).data) (hmem : CanBounce s) (hoff : IsOffset offset) (hsize : size < 2147483648)
    (hbuffer : size.toNat ≤ buffer.length) :
    ∃ mem, inodeWriteAt i buffer size offset s = some (avail (s.inode i).data size offset,
      { s with
        device := patch s.device ((s.inode i).data.start * 512 + offset.toNat)
          (buffer.take (avail (s.inode i).data size offset))
        mem := mem }) := by
  obtain ⟨m, asked, hrun, -, hfull⟩ := writeAt_eq (s.mem.headD true) (d := s.device) hfits hoff.1 hoff.2 hsize hbuffer
  obtain rfl := hfull hmem
  refine ⟨if asked then s.mem.tail else s.mem, ?_⟩
  unfold inodeWriteAt
  rw [if_pos hopen, if_neg (by simpa using hallowed), hrun]
  rfl

theorem inodeReadAt_flat (size : Int) (hopen : i ∈ s.openInodes) (hfits : Fits s.blocks (s.inode i).data) (hmem : CanBounce s)
    (hoff : IsOffset offset) (hsize : size < 2147483648) :
    ∃ mem, inodeReadAt i size offset s =
      some (slice s.device ((s.inode i).data.start * 512 + offset.toNat) (avail (s.inode i).data size offset),
        { s with mem }) := by
  obtain ⟨m, asked, hrun, -, hfull⟩ := readAt_eq (s.mem.headD true) (d := s.device) hfits hoff.1 hoff.2 hsize
  obtain rfl := hfull hmem
  refine ⟨if asked then s.mem.tail else s.mem, ?_⟩
  unfold inodeReadAt
  rw [if_pos hopen, hrun]
  cases asked <;> rfl

/-- What was written is read back. -/
theorem readAt_writeAt {mem : List Bool} (hopen : i ∈ s.openInodes) (hfits : Fits s.blocks (s.inode i).data)
    (hoff : IsOffset offset) (hsize : size < 2147483648) (hbuffer : size.toNat ≤ buffer.length) {d' : Device}
    (hd' : d' = patch s.device ((s.inode i).data.start * 512 + offset.toNat)
      (buffer.take (avail (s.inode i).data size offset))) (hmem : CanBounce { s with device := d', mem }) :
    ∃ s'', inodeReadAt i size offset { s with device := d', mem } =
      some (buffer.take (avail (s.inode i).data size offset), s'') := by
  obtain ⟨mem', hback⟩ := inodeReadAt_flat (s := { s with device := d', mem }) size hopen hfits hmem hoff hsize
  refine ⟨{ s with device := d', mem := mem' }, hback.trans ?_⟩
  have hlen : (buffer.take (avail (s.inode i).data size offset)).length = avail (s.inode i).data size offset :=
    List.length_take_of_le (Nat.le_trans avail_le hbuffer)
  have hself : slice d' ((s.inode i).data.start * 512 + offset.toNat)
      (buffer.take (avail (s.inode i).data size offset)).length = buffer.take (avail (s.inode i).data size offset) := by
    rw [hd']
    exact slice_patch_self
  rw [hlen] at hself
  simp only [hself]

/-- **Sector-wise transfers are flat transfers.** -/
theorem sector_io_is_flat {buffer : List UInt8} {size : Int} (hopen : i ∈ s.openInodes) (hallowed : (s.inode i).denyWriteCnt = 0)
    (hfits : Fits s.blocks (s.inode i).data) (hmem : CanBounce s) (hoff : IsOffset offset) (hsize : IsOffset size)
    (hbuffer : size.toNat ≤ buffer.length) :
    ∃ n : Nat, (n : Int) = max 0 (min size ((s.inode i).data.length - offset)) ∧
      FlatTransfer s i buffer size offset n := by
  obtain ⟨mem, hwrite⟩ := inodeWriteAt_flat buffer size hopen hallowed hfits hmem hoff hsize.2 hbuffer
  obtain ⟨mem', hread⟩ := inodeReadAt_flat size hopen hfits hmem hoff hsize.2
  refine ⟨avail (s.inode i).data size offset, avail_eq hsize.1 hoff.1, ?_, ?_, ?_, ?_, ?_⟩
  · exact ⟨_, hwrite, writes_patch (Nat.le_trans avail_le hbuffer), rfl⟩
  · exact ⟨_, hread, rfl⟩
  · intro s' hs' hmem'
    rw [hwrite] at hs'
    cases hs'
    exact readAt_writeAt hopen hfits hoff hsize.2 hbuffer rfl hmem'
  · rintro size₁ size₂ hsize₁ hsize₂ rfl hoff₂
    obtain ⟨hsplit, hfirst⟩ := avail_split (s.inode i).data hsize₁ hsize₂ hoff.1
    have hlt := hsize.2
    have hnat : (offset + size₁).toNat = offset.toNat + size₁.toNat := Int.toNat_add hoff.1 hsize₁
    obtain ⟨mem₁, hwrite₁⟩ := inodeWriteAt_flat buffer size₁ hopen hallowed hfits hmem hoff
      (by omega) (by omega)
    refine ⟨_, _, hwrite₁, ?_⟩
    intro hmem₁
    obtain ⟨d₁, hd₁⟩ : ∃ d₁, d₁ = patch s.device ((s.inode i).data.start * 512 + offset.toNat)
      (buffer.take (avail (s.inode i).data size₁ offset)) := ⟨_, rfl⟩
    rw [← hd₁] at hmem₁ ⊢
    obtain ⟨mem₂, hwrite₂⟩ := inodeWriteAt_flat (s := { s with device := d₁, mem := mem₁ })
      (buffer.drop size₁.toNat) size₂ hopen hallowed hfits hmem₁ hoff₂ (by omega)
      (by rw [List.length_drop]; omega)
    refine ⟨_, _, hwrite₂, _, by rw [← hsplit]; exact hwrite, ?_⟩
    rw [hd₁, hnat, ← Nat.add_assoc, patch_split (by omega) hfirst, hsplit]
  · rintro size₁ size₂ hsize₁ hsize₂ rfl hoff₂
    obtain ⟨hsplit, hfirst⟩ := avail_split (s.inode i).data hsize₁ hsize₂ hoff.1
    have hlt := hsize.2
    have hnat : (offset + size₁).toNat = offset.toNat + size₁.toNat := Int.toNat_add hoff.1 hsize₁
    obtain ⟨mem₁, hread₁⟩ := inodeReadAt_flat size₁ hopen hfits hmem hoff (by omega)
    refine ⟨_, _, hread₁, ?_⟩
    intro hmem₁
    obtain ⟨mem₂, hread₂⟩ := inodeReadAt_flat (s := { s with mem := mem₁ }) size₂ hopen hfits hmem₁ hoff₂
      (by omega)
    refine ⟨_, _, hread₂, { s with mem := mem' }, ?_⟩
    rw [hread, hsplit, ← slice_split hfirst]
    simp only [hnat, ← Nat.add_assoc]

/-- A file of 700 bytes in sectors 3 and 4: of 600 bytes at offset 300, 400 are transferred. -/
theorem sector_io_is_flat_tail :
    ∃ (s : Vol) (i : Addr), (s.inode i).data.length = 700 ∧ FlatTransfer s i (List.replicate 600 7) 600 300 400 := by
  have hstart : (start 8 (fun _ => 0) (fun _ => 0#32)).isSome = true := by decide +kernel
  obtain ⟨s, -⟩ := Option.isSome_iff_exists.mp hstart
  let t : Vol := { s with
    openInodes := [0], inode := fun _ => ⟨2, 1, 0, ⟨3, 700, by decide⟩⟩, blocks := 8, mem := [] }
  have hfits : Fits t.blocks (t.inode 0).data :=
    ⟨fun _ => show 3 + (700 + 511) / 512 ≤ 8 by decide, show 8 ≤ 2 ^ 32 by decide⟩
  obtain ⟨n, hn, htransfer⟩ := @sector_io_is_flat t 0 300 (List.replicate 600 7) 600 (List.mem_singleton.mpr rfl) rfl hfits
    rfl ⟨by decide, by decide⟩ ⟨by decide, by decide⟩ (by rw [List.length_replicate]; decide)
  have hlen : ((t.inode 0).data.length : Int) = 700 := rfl
  obtain rfl : n = 400 := by omega
  exact ⟨t, 0, rfl, htransfer⟩

end

end Volume
end Asg1

import WardenSdk.Lib.Overlay
import WardenSdk.Qemu.Mkimage

/-!
# What is on the disk

`Qemu.Mkimage` follows where `qemu/mkimage.sh` writes; this file follows the bytes.  The
disk starts empty, each `dd` puts a file at its place, and in the end the disk is cut or
filled up to the last end of a partition.

`dd … conv=sparse` does not write a block that is all zeros but passes over it, so a
block of zeros shows what an earlier `dd` has left there.  Nothing shows through when the
partitions do not overlap.  The script does not check that they do not; a layout without
explicit offsets has no overlap (`pairwise_apart`).  `image_holds_partitions` is then
about the finished disk: every partition lies on it and holds what was staged for it,
filled up with zeros.

What the host puts into a file system or a real image is a parameter; the boot metadata
of `misc` are those of the script.
-/

namespace WardenSdk
namespace Qemu

open Lib

/-! ## The files that are placed -/

/-- The files that come from the host, byte by byte. -/
structure Contents where
  /-- The file system made for a partition. -/
  tree : Partition → ℕ → UInt8
  real : RealImage → ℕ → UInt8

/-- One clock of the register of `zlib.crc32`. -/
def crc32Shift (crc : UInt32) : UInt32 :=
  if crc &&& 1 = 1 then (crc >>> 1) ^^^ 0xEDB88320 else crc >>> 1

/-- `zlib.crc32`. -/
def crc32 (bytes : List UInt8) : UInt32 :=
  ~~~ bytes.foldl (fun crc b => (crc32Shift^[8]) (crc ^^^ b.toUInt32)) 0xFFFFFFFF

/-- `struct.pack(">I", n)`. -/
def bigEndian (n : UInt32) : List UInt8 :=
  [(n >>> 24).toUInt8, (n >>> 16).toUInt8, (n >>> 8).toUInt8, n.toUInt8]

/-- The slots in front of the checksum: slot A has priority 15 and slot B 14, and both
are marked as successful. -/
def slotData : List UInt8 :=
  [0, 65, 66, 48, 1, 0, 0, 0, 15, 0, 1, 0, 14, 0, 1, 0, 0, 0, 0, 0, 0, 0, 0, 0, 0, 0, 0, 0]

def slotMetadata : List UInt8 := slotData ++ bigEndian (crc32 slotData)

/-- The `misc` image: the metadata from byte 2048 on, or from the end of a shorter one. -/
def miscByte (size i : ℕ) : UInt8 :=
  if i < min 2048 size then 0 else (slotMetadata[i - min 2048 size]?).getD 0

/-- How long the file is that is placed into a partition. -/
def stagedLength (host : Host) (p : Partition) : ℕ :=
  match stageOf host p.name with
  | some (.real _ image) => image.length.getD 0
  | some .misc => miscLength p.size.toNat
  | some .tree => p.size.toNat
  | some .zeroed => 0
  | none => 0

/-- The file that is placed into a partition, followed by zeros. -/
def stagedByte (host : Host) (contents : Contents) (p : Partition) (i : ℕ) : UInt8 :=
  if i < stagedLength host p then
    match stageOf host p.name with
    | some (.real _ image) => contents.real image i
    | some .misc => miscByte p.size.toNat i
    | some .tree => contents.tree p i
    | some .zeroed => 0
    | none => 0
  else 0

/-! ## The finished disk -/

/-- The 4096-byte block of a file is all zeros. -/
def zeroBlock (byte : ℕ → UInt8) (length k : ℕ) : Bool :=
  (List.range (min 4096 (length - 4096 * k))).all fun j => byte (4096 * k + j) == 0

/-- What one `dd … conv=notrunc,sparse` puts on the disk. -/
def Write.patch (host : Host) (contents : Contents) (w : Write) : Patch ℤ UInt8 where
  covers b := decide (w.pos ≤ b ∧ b < w.pos + w.length) &&
    !zeroBlock (stagedByte host contents w.part) w.length ((b - w.pos).toNat / 4096)
  value b := stagedByte host contents w.part (b - w.pos).toNat

structure RawImage where
  length : ℤ
  byte : ℤ → UInt8

/-- The disk at the end: `truncate -s "$DISK_END"` cuts it or fills it up. -/
def Disk.image (host : Host) (contents : Contents) (disk : Disk) : RawImage where
  length := disk.diskEnd
  byte b :=
    if b < disk.diskEnd then overlay (fun _ => 0) (disk.writes.map (Write.patch host contents)) b
    else 0

/-! ## One write for each partition -/

/-- The `dd` of a partition. -/
def stagedWrite (host : Host) (p : Partition) : Option Write :=
  match stageOf host p.name with
  | some .zeroed => none
  | none => none
  | _ => some ⟨p, 4096 * p.off.tdiv 4096, stagedLength host p⟩

theorem dd_eq {host : Host} {p : Partition} {length : ℕ} {disk disk' : Disk}
    (h : dd host p length disk = .ok disk') :
    disk' = { disk with writes := disk.writes ++ [⟨p, 4096 * p.off.tdiv 4096, length⟩] } := by
  unfold dd at h
  dsimp only at h
  split_ifs at h
  cases h
  rfl

/-- What the script does with one partition. -/
theorem placePartition_eq {host : Host} {p : Partition} {disk disk' : Disk}
    (h : placePartition host disk p = .ok disk') :
    disk' = { disk.endTrack p with writes := disk.writes ++ (stagedWrite host p).toList } := by
  have hwrites := endTrack_writes disk p
  unfold placePartition at h
  unfold stagedWrite
  cases hstage : stageOf host p.name with
  | none => rw [hstage] at h; cases h
  | some stage =>
    rw [hstage] at h
    have hstaged (h : placeStage host stage p (disk.endTrack p) = .ok disk')
        (hfile : stage = .misc ∨ stage = .tree) :
        disk' = { disk.endTrack p with
          writes := disk.writes ++ [⟨p, 4096 * p.off.tdiv 4096, stagedLength host p⟩] } := by
      unfold placeStage at h
      by_cases halign : p.off.tmod 4096 ≠ 0 ∨ p.size.tmod 4096 ≠ 0
      · rw [if_pos halign] at h
        cases h
      rw [if_neg halign] at h
      unfold stagedLength
      rw [hstage, ← hwrites]
      rcases hfile with rfl | rfl
      · dsimp only at h
        split_ifs at h
        exact dd_eq h
      · dsimp only at h
        split_ifs at h
        exact dd_eq h
    cases stage with
    | real option image =>
      dsimp only at h
      unfold stagedLength
      rw [hstage]
      cases hlength : image.length with
      | none => rw [hlength] at h; cases h
      | some length =>
        rw [hlength] at h
        dsimp only [placeRealImage] at h
        split_ifs at h
        rw [← hwrites]
        dsimp only
        rw [hlength]
        exact dd_eq h
    | misc => exact hstaged h (.inl rfl)
    | tree => exact hstaged h (.inr rfl)
    | zeroed =>
      dsimp only [placeStage] at h
      split_ifs at h
      cases h
      rw [← hwrites]
      exact congrArg (fun ws => ({ disk.endTrack p with writes := ws } : Disk))
        (List.append_nil _).symm

/-- **A run that is not aborted writes each partition once**, in the order of the
layout, and ends the disk where the last of them ends. -/
theorem foldlM_eq {host : Host} {ps : List Partition} {disk disk' : Disk}
    (h : ps.foldlM (placePartition host) disk = .ok disk') :
    disk'.writes = disk.writes ++ ps.filterMap (stagedWrite host) ∧
      disk.diskEnd ≤ disk'.diskEnd ∧ ∀ p ∈ ps, wrap64 (p.off + p.size) ≤ disk'.diskEnd := by
  induction ps generalizing disk with
  | nil =>
    cases h
    exact ⟨(List.append_nil _).symm, le_refl _, List.forall_mem_nil _⟩
  | cons p ps ih =>
    rw [List.foldlM_cons] at h
    obtain ⟨disk₁, hp, h⟩ := bind_eq_ok h
    obtain ⟨hwrites, hend, hends⟩ := ih h
    obtain rfl := placePartition_eq hp
    have htrack : disk.diskEnd ≤ (disk.endTrack p).diskEnd ∧
        wrap64 (p.off + p.size) ≤ (disk.endTrack p).diskEnd := by
      unfold Disk.endTrack
      dsimp only
      split_ifs with hreach
      · exact ⟨le_of_lt hreach, le_refl _⟩
      · exact ⟨le_refl _, not_lt.mp hreach⟩
    refine ⟨?_, htrack.1.trans hend, List.forall_mem_cons.mpr ⟨htrack.2.trans hend, hends⟩⟩
    rw [hwrites, List.append_assoc]
    cases hstaged : stagedWrite host p with
    | none => rw [List.filterMap_cons_none hstaged]; rfl
    | some w => rw [List.filterMap_cons_some hstaged]; rfl

/-! ## Partitions apart from each other -/

/-- No byte lies in both. -/
def Partition.Apart (p q : Partition) : Prop := p.off + p.size ≤ q.off ∨ q.off + q.size ≤ p.off

instance : Std.Symm Partition.Apart := ⟨fun _ _ => Or.symm⟩

/-- The place of a partition is made of nonnegative numbers of 64 bits. -/
structure Partition.Placed (p : Partition) : Prop where
  off_nonneg : 0 ≤ p.off
  size_nonneg : 0 ≤ p.size
  end_lt : p.off + p.size < 2 ^ 63

theorem Partition.Placed.wrap64_end {p : Partition} (hp : p.Placed) :
    wrap64 (p.off + p.size) = p.off + p.size := by
  obtain ⟨hoff, hsize, hend⟩ := hp
  exact Int.bmod_eq_of_le (by omega) (by omega)

/-- Each partition begins where the one before it ends. -/
def Contiguous : ℤ → List Partition → Prop
  | _, [] => True
  | off, p :: ps => p.off = off ∧ Contiguous (wrap64 (p.off + p.size)) ps

theorem Contiguous.le_off {off : ℤ} {ps : List Partition} (h : Contiguous off ps)
    (hps : ∀ p ∈ ps, p.Placed) : ∀ p ∈ ps, off ≤ p.off := by
  induction ps generalizing off with
  | nil => exact List.forall_mem_nil _
  | cons p ps ih =>
    obtain ⟨hfirst, hrest⟩ := h
    obtain ⟨hp, hps⟩ := List.forall_mem_cons.mp hps
    rw [hp.wrap64_end] at hrest
    refine List.forall_mem_cons.mpr ⟨hfirst.ge, fun q hq => ?_⟩
    have hlater := ih hrest hps q hq
    have hsize := hp.size_nonneg
    omega

theorem Contiguous.pairwise_apart {off : ℤ} {ps : List Partition} (h : Contiguous off ps)
    (hps : ∀ p ∈ ps, p.Placed) : ps.Pairwise Partition.Apart := by
  induction ps generalizing off with
  | nil => exact List.Pairwise.nil
  | cons p ps ih =>
    obtain ⟨-, hrest⟩ := h
    obtain ⟨hp, hps⟩ := List.forall_mem_cons.mp hps
    refine List.pairwise_cons.mpr ⟨fun q hq => .inl ?_, ih hrest hps⟩
    rw [← hp.wrap64_end]
    exact hrest.le_off hps q hq

/-- An entry without an offset of its own. -/
theorem readEntry_off {entry : Text} {off : ℤ} {p : Partition}
    (hplain : afterFirst '@' (beforeFirst '(' entry) = beforeFirst '(' entry)
    (h : readEntry entry off = .ok p) : p.off = off := by
  unfold readEntry at h
  dsimp only at h
  rw [if_neg (not_not.mpr hplain)] at h
  obtain ⟨size, -, h⟩ := bind_eq_ok h
  cases h
  rfl

theorem eachEntry_contiguous {entries : List Text} {off : ℤ} {acc ps : List Partition}
    (hplain : ∀ entry ∈ entries, afterFirst '@' (beforeFirst '(' entry) = beforeFirst '(' entry)
    (h : eachEntry (fun ps p => .ok (ps ++ [p])) entries off acc = .ok ps) :
    ∃ new, ps = acc ++ new ∧ Contiguous off new := by
  induction entries generalizing off acc with
  | nil =>
    cases h
    exact ⟨[], (List.append_nil _).symm, trivial⟩
  | cons entry rest ih =>
    obtain ⟨hentry, hrest⟩ := List.forall_mem_cons.mp hplain
    obtain ⟨p, hp, h⟩ := bind_eq_ok h
    obtain ⟨new, rfl, hnew⟩ := ih hrest h
    refine ⟨p :: new, by rw [List.append_assoc, List.singleton_append], ?_, hnew⟩
    exact readEntry_off hentry hp

/-- **A layout without offsets has no overlap**, unless its numbers leave the 64 bits. -/
theorem pairwise_apart {blkdevparts : Text} {ps : List Partition}
    (hplain : ∀ entry ∈ fields ',' (afterFirst ':' blkdevparts),
      afterFirst '@' (beforeFirst '(' entry) = beforeFirst '(' entry)
    (h : partitions blkdevparts = .ok ps) (hps : ∀ p ∈ ps, p.Placed) :
    ps.Pairwise Partition.Apart := by
  obtain ⟨new, rfl, hnew⟩ := eachEntry_contiguous hplain h
  exact hnew.pairwise_apart hps

/-! ## Reading the disk -/

theorem zeroBlock_eq_true {byte : ℕ → UInt8} {length i : ℕ} (hi : i < length)
    (h : zeroBlock byte length (i / 4096) = true) : byte i = 0 := by
  have hall := List.all_eq_true.mp h (i % 4096) (List.mem_range.mpr (by omega))
  rw [Nat.div_add_mod] at hall
  exact eq_of_beq hall

theorem stagedByte_of_length_le {host : Host} {contents : Contents} {p : Partition} {i : ℕ}
    (h : stagedLength host p ≤ i) : stagedByte host contents p i = 0 :=
  if_neg (Nat.not_lt.mpr h)

/-- A partition for which nothing is placed. -/
theorem stagedLength_of_none {host : Host} {p : Partition} (h : stagedWrite host p = none) :
    stagedLength host p = 0 := by
  unfold stagedWrite at h
  unfold stagedLength
  split at h <;> rename_i hstage
  · rw [hstage]
  · rw [hstage]
  · cases h

theorem stagedWrite_eq_some {host : Host} {p : Partition} {w : Write}
    (h : stagedWrite host p = some w) : w = ⟨p, 4096 * p.off.tdiv 4096, stagedLength host p⟩ := by
  unfold stagedWrite at h
  split at h
  · cases h
  · cases h
  · cases h
    rfl

/-- A byte that a write covers lies in the partition of the write. -/
theorem Write.mem_part {host : Host} {contents : Contents} {w : Write} (hin : w.Inside) {b : ℤ}
    (hb : (w.patch host contents).covers b = true) :
    w.part.off ≤ b ∧ b < w.part.off + w.part.size := by
  obtain ⟨hrange, -⟩ := Bool.and_eq_true_iff.mp hb
  obtain ⟨hfirst, hlast⟩ := of_decide_eq_true hrange
  exact hin b hfirst hlast

/-- A write inside its partition begins where the partition does. -/
theorem pos_eq_off {host : Host} {p : Partition} {w : Write} (hw : stagedWrite host p = some w)
    (hin : w.Inside) (hoff : 0 ≤ p.off) : w.length = 0 ∨ w.pos = p.off := by
  obtain rfl := stagedWrite_eq_some hw
  rcases eq_or_ne (stagedLength host p) 0 with hzero | hne
  · exact .inl hzero
  · have hstart := ((inside_iff_ends (w := ⟨p, 4096 * p.off.tdiv 4096, stagedLength host p⟩)
      hne).mp hin).1
    have hquot : p.off.tdiv 4096 = p.off / 4096 := Int.tdiv_eq_ediv_of_nonneg hoff
    dsimp only at hstart ⊢
    right
    omega

section Layout

variable {host : Host} {contents : Contents} {ps : List Partition}
  (hin : ∀ w ∈ ps.filterMap (stagedWrite host), w.Inside)
  (hapart : ps.Pairwise Partition.Apart)

include hin

/-- A byte outside of all the partitions. -/
theorem overlay_outside {b : ℤ} (hb : ∀ p ∈ ps, ¬ (p.off ≤ b ∧ b < p.off + p.size)) :
    overlay (fun _ => 0) ((ps.filterMap (stagedWrite host)).map (Write.patch host contents)) b
      = 0 := by
  refine overlay_of_not_covered (fun q hq => ?_) _
  obtain ⟨w, hw, rfl⟩ := List.mem_map.mp hq
  obtain ⟨p, hp, hstaged⟩ := List.mem_filterMap.mp hw
  refine Bool.eq_false_iff.mpr fun hcover => hb p hp ?_
  have hmem := Write.mem_part (hin w hw) hcover
  rwa [stagedWrite_eq_some hstaged] at hmem

include hapart

theorem patches_apart :
    ((ps.filterMap (stagedWrite host)).map (Write.patch host contents)).Pairwise Patch.Apart := by
  have hwrites : (ps.filterMap (stagedWrite host)).Pairwise
      fun w w' : Write => w.part.Apart w'.part := by
    refine hapart.filterMap _ fun p q hpq w hw w' hw' => ?_
    rw [stagedWrite_eq_some hw, stagedWrite_eq_some hw']
    exact hpq
  refine List.pairwise_map.mpr (hwrites.imp_of_mem fun {w w'} hw hw' happ b hb => ?_)
  refine Bool.eq_false_iff.mpr fun hb' => ?_
  have h₁ := Write.mem_part (hin w hw) hb
  have h₂ := Write.mem_part (hin w' hw') hb'
  unfold Partition.Apart at happ
  omega

/-- What the finished disk has at a byte of a partition, be it written or passed over. -/
theorem overlay_inside {p : Partition} (hp : p ∈ ps) (hoff : 0 ≤ p.off) {i : ℕ}
    (hi : (i : ℤ) < p.size) :
    overlay (fun _ => 0) ((ps.filterMap (stagedWrite host)).map (Write.patch host contents))
      (p.off + i) = stagedByte host contents p i := by
  by_cases hcover : ∃ w, stagedWrite host p = some w ∧
      (w.patch host contents).covers (p.off + i) = true
  · obtain ⟨w, hw, hcover⟩ := hcover
    have hmem : w ∈ ps.filterMap (stagedWrite host) := List.mem_filterMap.mpr ⟨p, hp, hw⟩
    rw [overlay_of_mem (patches_apart hin hapart) (List.mem_map_of_mem hmem) hcover]
    obtain ⟨hfirst, hlast⟩ := of_decide_eq_true (Bool.and_eq_true_iff.mp hcover).1
    have hpos : w.pos = p.off := (pos_eq_off hw (hin w hmem) hoff).resolve_left (by omega)
    have hpart : w.part = p := by rw [stagedWrite_eq_some hw]
    show stagedByte host contents w.part (p.off + i - w.pos).toNat = _
    rw [hpart, hpos, add_sub_cancel_left, Int.toNat_natCast]
  · -- nothing is written at the byte: by no other partition, and by its own not either
    have hnone : overlay (fun _ => 0)
        ((ps.filterMap (stagedWrite host)).map (Write.patch host contents)) (p.off + i) = 0 := by
      refine overlay_of_not_covered (fun q hq => ?_) _
      obtain ⟨w, hw, rfl⟩ := List.mem_map.mp hq
      obtain ⟨p', hp', hstaged⟩ := List.mem_filterMap.mp hw
      refine Bool.eq_false_iff.mpr fun hc => ?_
      rcases eq_or_ne p' p with rfl | hne
      · exact hcover ⟨w, hstaged, hc⟩
      have hmem := Write.mem_part (hin w hw) hc
      rw [stagedWrite_eq_some hstaged] at hmem
      have happ : p'.Apart p := hapart.forall hp' hp hne
      unfold Partition.Apart at happ
      dsimp only at hmem
      omega
    rw [hnone]
    rcases Nat.lt_or_ge i (stagedLength host p) with hlt | hge
    · cases hw : stagedWrite host p with
      | none => rw [stagedLength_of_none hw] at hlt; omega
      | some w =>
        have hmem : w ∈ ps.filterMap (stagedWrite host) := List.mem_filterMap.mpr ⟨p, hp, hw⟩
        have hpos := pos_eq_off hw (hin w hmem) hoff
        obtain rfl := stagedWrite_eq_some hw
        dsimp only at hpos
        have hpos : 4096 * p.off.tdiv 4096 = p.off := hpos.resolve_left (by omega)
        have hzero : zeroBlock (stagedByte host contents p) (stagedLength host p) (i / 4096)
            = true := by
          by_contra hne
          refine hcover ⟨_, hw, Bool.and_eq_true_iff.mpr ⟨decide_eq_true ?_, ?_⟩⟩
          · dsimp only
            omega
          · dsimp only
            rw [hpos, add_sub_cancel_left, Int.toNat_natCast]
            exact Bool.not_eq_true' _ ▸ Bool.eq_false_iff.mpr hne
        exact (zeroBlock_eq_true hlt hzero).symm
    · exact (stagedByte_of_length_le hge).symm

end Layout

/-- **The finished disk holds its partitions.**  Every partition lies on it and has the
bytes that were staged for it, although the blocks of zeros have been passed over; what
is in no partition is zero.  The files have to be kept inside their partitions
(`writes_inside_iff`) and the partitions apart from each other. -/
theorem image_holds_partitions {host : Host} {blkdevparts : Text} {disk : Disk}
    {ps : List Partition} (contents : Contents) (h : mkimage host blkdevparts = .ok disk)
    (hps : partitions blkdevparts = .ok ps) (hkept : ∀ p ∈ ps, p.Kept host)
    (hplaced : ∀ p ∈ ps, p.Placed) (hapart : ps.Pairwise Partition.Apart) :
    (∀ p ∈ ps, p.off + p.size ≤ (disk.image host contents).length ∧
      ∀ i : ℕ, (i : ℤ) < p.size →
        (disk.image host contents).byte (p.off + i) = stagedByte host contents p i) ∧
      ∀ b, (∀ p ∈ ps, ¬ (p.off ≤ b ∧ b < p.off + p.size)) →
        (disk.image host contents).byte b = 0 := by
  have hfold : ps.foldlM (placePartition host) ⟨[], 0⟩ = .ok disk :=
    (qemuEachPartition_of_partitions hps _ _).symm.trans h
  obtain ⟨hwrites, -, hends⟩ := foldlM_eq hfold
  rw [List.nil_append] at hwrites
  have hin : ∀ w ∈ ps.filterMap (stagedWrite host), w.Inside := by
    obtain ⟨ws, hws, hinside⟩ := foldlM_addsWithin hfold
    rw [hwrites, List.nil_append] at hws
    rw [hws]
    exact hinside.mpr hkept
  refine ⟨fun p hp => ?_, fun b hb => ?_⟩
  · have hend : p.off + p.size ≤ disk.diskEnd := (hplaced p hp).wrap64_end ▸ hends p hp
    refine ⟨hend, fun i hi => ?_⟩
    show (if p.off + i < disk.diskEnd then _ else _) = _
    rw [if_pos (by omega), hwrites]
    exact overlay_inside hin hapart hp (hplaced p hp).off_nonneg hi
  · show (if b < disk.diskEnd then _ else _) = _
    rw [hwrites, overlay_outside hin hb, ite_self]

/-- The partitions of `qemu/blkdevparts.conf`. -/
def wardenPartitions : List Partition :=
  [⟨"env".toList, 0, 32768⟩, ⟨"idblock".toList, 32768, 524288⟩, ⟨"uboot".toList, 557056, 524288⟩,
    ⟨"misc".toList, 1081344, 524288⟩, ⟨"boot_a".toList, 1605632, 33554432⟩,
    ⟨"boot_b".toList, 35160064, 33554432⟩, ⟨"oem_a".toList, 68714496, 134217728⟩,
    ⟨"oem_b".toList, 202932224, 134217728⟩, ⟨"rootfs_a".toList, 337149952, 1073741824⟩,
    ⟨"rootfs_b".toList, 1410891776, 1073741824⟩, ⟨"recovery".toList, 2484633600, 33554432⟩,
    ⟨"userdata".toList, 2518188032, 1073741824⟩]

instance (p : Partition) : Decidable p.Placed :=
  decidable_of_iff (0 ≤ p.off ∧ 0 ≤ p.size ∧ p.off + p.size < 2 ^ 63)
    ⟨fun ⟨hoff, hsize, hend⟩ => ⟨hoff, hsize, hend⟩,
      fun hp => ⟨hp.off_nonneg, hp.size_nonneg, hp.end_lt⟩⟩

instance : DecidableRel Partition.Apart := fun p q =>
  inferInstanceAs (Decidable (p.off + p.size ≤ q.off ∨ q.off + q.size ≤ p.off))

/-- Files that count their bytes. -/
def countingContents : Contents := ⟨fun _ i => i.toUInt8, fun _ i => i.toUInt8⟩

/-- The layout of the board with the pair of images that fill their slots. -/
theorem image_holds_partitions_of_pair :
    ∃ disk, mkimage pairHost wardenBlkdevparts = .ok disk ∧
      ∀ p ∈ wardenPartitions, p.off + p.size ≤ (disk.image pairHost countingContents).length ∧
        ∀ i : ℕ, (i : ℤ) < p.size →
          (disk.image pairHost countingContents).byte (p.off + i) =
            stagedByte pairHost countingContents p i := by
  have hps : partitions wardenBlkdevparts = .ok wardenPartitions := by decide +kernel
  have hplaced : ∀ p ∈ wardenPartitions, p.Placed := by decide +kernel
  have hapart : wardenPartitions.Pairwise Partition.Apart := by decide +kernel
  have hkept : ∀ p ∈ wardenPartitions, p.Kept pairHost := by
    have hreal {length : ℕ} {p : Partition} (hoff : (4096 : ℤ) ∣ p.off)
        (hsize : (length : ℤ) ≤ p.size) : ∀ n, some length = some n → n = 0 ∨
          ((4096 : ℤ) ∣ p.off ∧ (n : ℤ) ≤ p.size) ∨ (p.off < 0 ∧ (n : ℤ) ≤ p.off + p.size) := by
      rintro n ⟨⟩
      exact .inr (.inl ⟨hoff, hsize⟩)
    unfold wardenPartitions
    simp only [List.forall_mem_cons]
    refine ⟨trivial, trivial, trivial, ?_, trivial, trivial, ?_, trivial, ?_, trivial, trivial,
      trivial, List.forall_mem_nil _⟩
    · show (524288 : ℤ) ≠ 0
      decide
    · exact hreal (by decide) (by decide)
    · exact hreal (by decide) (by decide)
  have hrun : (mkimage pairHost wardenBlkdevparts).isOk = true := by
    rw [mkimage, qemuEachPartition_of_partitions hps]
    decide +kernel
  cases hdisk : mkimage pairHost wardenBlkdevparts with
  | error e => rw [hdisk] at hrun; cases hrun
  | ok disk =>
    exact ⟨disk, rfl,
      (image_holds_partitions countingContents hdisk hps hkept hplaced hapart).1⟩

end Qemu
end WardenSdk

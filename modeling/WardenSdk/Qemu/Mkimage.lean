import WardenSdk.Qemu.Layout

/-!
# The disk image

`qemu/mkimage.sh` fills the virtio disk partition by partition.  What goes into a
partition is written by `dd` in blocks of 4096 bytes, from the block that the offset
of the partition lies in.  There are three ways to it:

* a real image, placed as it is once it is seen to fit;
* the `misc` partition, whose boot metadata stand at byte 2048;
* a file system made to the size of the partition.

The last two check that the offset and the size are multiples of 4096; a real image
is placed before that check, and its length is taken off the directory entry.
`writes_inside_iff` says what this comes to for a run that is not aborted.

The model keeps where and how much is written, not the bytes.  Commands that may fail
for reasons of their own do so at the host's will.
-/

namespace WardenSdk
namespace Qemu

open Lib

/-- The layout of `qemu/blkdevparts.conf`. -/
def wardenBlkdevparts : Text :=
  ("vda:32K(env),512K@32K(idblock),512K(uboot),512K(misc),32M(boot_a),32M(boot_b),128M(oem_a)," ++
    "128M(oem_b),1G(rootfs_a),1G(rootfs_b),32M(recovery),1G(userdata)").toList

/-- A path given on the command line. -/
structure RealImage where
  path : Text
  /-- The length of the regular file that the path leads to. -/
  length : Option ℕ
  /-- The length of the path's own entry when that is a symbolic link. -/
  link : Option ℕ

inductive Command where
  | dd
  | mkfs
  | python3

structure Host where
  /-- `--rootfs-image`. -/
  rootfsImage : Option RealImage
  /-- `--oem-image`. -/
  oemImage : Option RealImage
  /-- The command succeeds for the partition of this name. -/
  succeeds : Command → Text → Bool

/-- The bytes that one `dd` writes. -/
structure Write where
  part : Partition
  pos : ℤ
  length : ℕ
  deriving DecidableEq

def Write.Inside (w : Write) : Prop :=
  ∀ b : ℤ, w.pos ≤ b → b < w.pos + w.length → w.part.off ≤ b ∧ b < w.part.off + w.part.size

structure Disk where
  writes : List Write
  diskEnd : ℤ
  deriving DecidableEq

def Disk.endTrack (disk : Disk) (p : Partition) : Disk :=
  let reach := wrap64 (p.off + p.size)
  if reach > disk.diskEnd then { disk with diskEnd := reach } else disk

/-- `dd … bs=4096 seek=$((off / 4096)) conv=notrunc,sparse`. -/
def dd (host : Host) (p : Partition) (length : ℕ) (disk : Disk) : Script Disk :=
  let seek := p.off.tdiv 4096
  if seek < 0 ∨ host.succeeds .dd p.name = false then .error (.command "dd".toList)
  else .ok { disk with writes := disk.writes ++ [⟨p, 4096 * seek, length⟩] }

/-- `stat` measures a symbolic link itself, while `dd` reads the file behind it. -/
def placeRealImage (host : Host) (image : RealImage) (length : ℕ) (p : Partition) (disk : Disk) :
    Script Disk :=
  let srcsz := image.link.getD length
  if (srcsz : ℤ) ≤ p.size then dd host p length disk
  else
    .error (.fatal ("FATAL: ".toList ++ p.name ++ " image ".toList ++ image.path ++ " (".toList ++
      decimal srcsz ++ " bytes) exceeds the ".toList ++ integerText p.size ++
      "-byte partition".toList))

/-- What goes into a partition. -/
inductive Stage where
  | real (option : Text) (image : RealImage)
  | misc
  | tree
  | zeroed

/-- The name decides; an unknown one decides nothing. -/
def stageOf (host : Host) (name : Text) : Option Stage :=
  if name = "rootfs_a".toList then
    some (host.rootfsImage.elim .tree (.real "--rootfs-image".toList))
  else if name = "oem_a".toList then some (host.oemImage.elim .tree (.real "--oem-image".toList))
  else if name ∈ ["rootfs_b".toList, "userdata".toList, "oem_b".toList] then some .tree
  else if name = "misc".toList then some .misc
  else if name ∈ ["env".toList, "idblock".toList, "uboot".toList, "boot_a".toList,
    "boot_b".toList, "recovery".toList] then some .zeroed
  else none

/-- The length of the `misc` image: 32 bytes of metadata take the place of the bytes
from 2048 on, as far as there are any. -/
def miscLength (size : ℕ) : ℕ := size - (min 2080 size - min 2048 size) + 32

/-- The partition is filled once its alignment is checked. -/
def placeStage (host : Host) (stage : Stage) (p : Partition) (disk : Disk) : Script Disk :=
  if p.off.tmod 4096 ≠ 0 ∨ p.size.tmod 4096 ≠ 0 then
    .error (.fatal ("FATAL: partition ".toList ++ p.name ++ " not 4K-aligned (off=".toList ++
      integerText p.off ++ " size=".toList ++ integerText p.size ++ ")".toList))
  else
    match stage with
    | .misc =>
      if p.size < 0 ∨ host.succeeds .python3 p.name = false then
        .error (.command "python3".toList)
      else dd host p (miscLength p.size.toNat) disk
    | .tree =>
      -- `truncate` makes the file as long as the partition
      if host.succeeds .mkfs p.name = false then .error (.command "mkfs.ext4".toList)
      else dd host p p.size.toNat disk
    | _ => .ok disk

def placePartition (host : Host) (disk : Disk) (p : Partition) : Script Disk :=
  match stageOf host p.name with
  | none =>
    .error (.fatal ("FATAL: unknown partition name '".toList ++ p.name ++
      "' in blkdevparts.conf".toList))
  | some (.real option image) =>
    match image.length with
    | none =>
      .error (.fatal ("FATAL: ".toList ++ option ++ " ".toList ++ image.path ++ " not found".toList))
    | some length => placeRealImage host image length p (disk.endTrack p)
  | some stage => placeStage host stage p (disk.endTrack p)

def mkimage (host : Host) (blkdevparts : Text) : Script Disk :=
  qemuEachPartition (placePartition host) blkdevparts ⟨[], 0⟩

/-! ## Where the writes go -/

/-- What keeps the writes to a partition inside it. -/
def Partition.Kept (host : Host) (p : Partition) : Prop :=
  match stageOf host p.name with
  | some (.real _ image) => ∀ length, image.length = some length →
      length = 0 ∨ ((4096 : ℤ) ∣ p.off ∧ (length : ℤ) ≤ p.size) ∨
        (p.off < 0 ∧ (length : ℤ) ≤ p.off + p.size)
  | some .misc => p.size ≠ 0
  | _ => True

theorem dd_eq_ok {host : Host} {p : Partition} {length : ℕ} {disk disk' : Disk}
    (h : dd host p length disk = .ok disk') :
    0 ≤ p.off.tdiv 4096 ∧
      disk'.writes = disk.writes ++ [⟨p, 4096 * p.off.tdiv 4096, length⟩] := by
  unfold dd at h
  dsimp only at h
  split_ifs at h with hfail
  cases h
  exact ⟨Int.not_lt.mp (not_or.mp hfail).1, rfl⟩

/-- The bytes of a write that is not empty: the first and the last decide. -/
theorem inside_iff_ends {w : Write} (hne : w.length ≠ 0) :
    w.Inside ↔ w.part.off ≤ w.pos ∧ w.pos + w.length ≤ w.part.off + w.part.size := by
  constructor
  · intro h
    have hfirst := h w.pos (by omega) (by omega)
    have hlast := h (w.pos + w.length - 1) (by omega) (by omega)
    omega
  · rintro ⟨hstart, hend⟩ b h₁ h₂
    omega

/-- **Writing from the block of an offset**, without an alignment check. -/
theorem inside_iff {p : Partition} {length : ℕ} (hseek : 0 ≤ p.off.tdiv 4096) :
    Write.Inside ⟨p, 4096 * p.off.tdiv 4096, length⟩ ↔
      length = 0 ∨ ((4096 : ℤ) ∣ p.off ∧ (length : ℤ) ≤ p.size) ∨
        (p.off < 0 ∧ (length : ℤ) ≤ p.off + p.size) := by
  by_cases hzero : length = 0
  · refine ⟨fun _ => .inl hzero, fun _ b h₁ h₂ => ?_⟩
    dsimp only at h₁ h₂
    omega
  rw [inside_iff_ends hzero]
  dsimp only
  by_cases hneg : p.off < 0
  · -- the quotient is rounded towards zero, so that the write begins at zero
    have hquot : p.off.tdiv 4096 = -((-p.off) / 4096) := by
      rw [← Int.tdiv_eq_ediv_of_nonneg (by omega), Int.neg_tdiv, Int.neg_neg]
    have hnonneg : 0 ≤ (-p.off) / 4096 := Int.ediv_nonneg (by omega) (by omega)
    have hstart : p.off.tdiv 4096 = 0 := by omega
    rw [hstart]
    omega
  · have hquot : p.off.tdiv 4096 = p.off / 4096 := Int.tdiv_eq_ediv_of_nonneg (by omega)
    rw [hquot]
    omega

theorem endTrack_writes (disk : Disk) (p : Partition) : (disk.endTrack p).writes = disk.writes := by
  unfold Disk.endTrack
  dsimp only
  split_ifs <;> rfl

/-- What a step adds stays inside exactly when its condition is met. -/
def AddsWithin (kept : Prop) (disk disk' : Disk) : Prop :=
  ∃ ws, disk'.writes = disk.writes ++ ws ∧ ((∀ w ∈ ws, w.Inside) ↔ kept)

theorem dd_addsWithin {host : Host} {p : Partition} {length : ℕ} {disk disk' : Disk}
    (h : dd host p length disk = .ok disk') :
    AddsWithin (length = 0 ∨ ((4096 : ℤ) ∣ p.off ∧ (length : ℤ) ≤ p.size) ∨
      (p.off < 0 ∧ (length : ℤ) ≤ p.off + p.size)) disk disk' := by
  obtain ⟨hseek, hwrites⟩ := dd_eq_ok h
  refine ⟨_, hwrites, ?_⟩
  rw [List.forall_mem_singleton, inside_iff hseek]

/-- A stage that is placed after the alignment check. -/
theorem placeStage_addsWithin {host : Host} {stage : Stage} {p : Partition} {disk disk' : Disk}
    (h : placeStage host stage p disk = .ok disk') :
    AddsWithin (stage = .misc → p.size ≠ 0) disk disk' := by
  unfold placeStage at h
  by_cases halign : p.off.tmod 4096 ≠ 0 ∨ p.size.tmod 4096 ≠ 0
  · rw [if_pos halign] at h
    cases h
  rw [if_neg halign] at h
  rw [not_or, not_not, not_not] at halign
  obtain ⟨hoff, hsize⟩ := halign
  have hoff' : (4096 : ℤ) ∣ p.off := Int.dvd_iff_tmod_eq_zero.mpr hoff
  have hsize' : (4096 : ℤ) ∣ p.size := Int.dvd_iff_tmod_eq_zero.mpr hsize
  split at h
  · -- the metadata make an empty image longer
    split_ifs at h with hfail
    have hnonneg : 0 ≤ p.size := Int.not_lt.mp (not_or.mp hfail).1
    obtain ⟨ws, hwrites, hinside⟩ := dd_addsWithin h
    refine ⟨ws, hwrites, hinside.trans ?_⟩
    unfold miscLength
    constructor
    · intro hkept _
      omega
    · intro hne
      have hpos := hne rfl
      omega
  · split_ifs at h with hfail
    obtain ⟨ws, hwrites, hinside⟩ := dd_addsWithin h
    refine ⟨ws, hwrites, hinside.trans ⟨fun _ => nofun, fun _ => ?_⟩⟩
    omega
  · rename_i hmisc htree
    cases h
    refine ⟨[], (List.append_nil _).symm, ?_⟩
    exact ⟨fun _ hstage => absurd hstage hmisc, fun _ => List.forall_mem_nil _⟩

theorem placePartition_addsWithin {host : Host} {p : Partition} {disk disk' : Disk}
    (h : placePartition host disk p = .ok disk') : AddsWithin (p.Kept host) disk disk' := by
  unfold placePartition at h
  unfold Partition.Kept
  cases hstage : stageOf host p.name with
  | none => rw [hstage] at h; cases h
  | some stage =>
    rw [hstage] at h
    have hstaged (h : placeStage host stage p (disk.endTrack p) = .ok disk') :
        AddsWithin (stage = .misc → p.size ≠ 0) disk disk' := by
      obtain ⟨ws, hwrites, hinside⟩ := placeStage_addsWithin h
      exact ⟨ws, by rw [hwrites, endTrack_writes], hinside⟩
    cases stage with
    | real option image =>
      dsimp only at h
      cases hlength : image.length with
      | none => rw [hlength] at h; cases h
      | some length =>
        rw [hlength] at h
        dsimp only [placeRealImage] at h
        split_ifs at h with hfits
        obtain ⟨ws, hwrites, hinside⟩ := dd_addsWithin h
        refine ⟨ws, by rw [hwrites, endTrack_writes], hinside.trans ?_⟩
        dsimp only
        rw [hlength]
        constructor
        · rintro hkept n hn
          cases hn
          exact hkept
        · intro hkept
          exact hkept length rfl
    | misc =>
      obtain ⟨ws, hwrites, hinside⟩ := hstaged h
      exact ⟨ws, hwrites, hinside.trans ⟨fun hne => hne rfl, fun hne _ => hne⟩⟩
    | tree =>
      obtain ⟨ws, hwrites, hinside⟩ := hstaged h
      exact ⟨ws, hwrites, hinside.trans ⟨fun _ => trivial, fun _ => nofun⟩⟩
    | zeroed =>
      obtain ⟨ws, hwrites, hinside⟩ := hstaged h
      exact ⟨ws, hwrites, hinside.trans ⟨fun _ => trivial, fun _ => nofun⟩⟩

/-- One partition after the other. -/
theorem foldlM_addsWithin {host : Host} {ps : List Partition} {disk disk' : Disk}
    (h : ps.foldlM (placePartition host) disk = .ok disk') :
    AddsWithin (∀ p ∈ ps, p.Kept host) disk disk' := by
  induction ps generalizing disk with
  | nil =>
    cases h
    exact ⟨[], (List.append_nil _).symm, by simp⟩
  | cons p ps ih =>
    rw [List.foldlM_cons] at h
    obtain ⟨disk₁, hp, h⟩ := bind_eq_ok h
    obtain ⟨ws₁, hwrites₁, hinside₁⟩ := placePartition_addsWithin hp
    obtain ⟨ws₂, hwrites₂, hinside₂⟩ := ih h
    refine ⟨ws₁ ++ ws₂, by rw [hwrites₂, hwrites₁, List.append_assoc], ?_⟩
    rw [List.forall_mem_append, List.forall_mem_cons, hinside₁, hinside₂]

/-- **When the image stays inside its partitions.**  A run that is not aborted writes
inside them if and only if

* each real image, unless it is empty, stands at a multiple of 4096 and is no longer
  than its partition (a symbolic link hides the length of its file), or stands at an
  offset that has overflowed to a negative number and fits behind zero; and
* no `misc` partition has size zero. -/
theorem writes_inside_iff {host : Host} {blkdevparts : Text} {disk : Disk}
    (h : mkimage host blkdevparts = .ok disk) :
    ∃ ps, partitions blkdevparts = .ok ps ∧
      ((∀ w ∈ disk.writes, w.Inside) ↔ ∀ p ∈ ps, p.Kept host) := by
  obtain ⟨ps, hps, hfold⟩ := qemuEachPartition_eq_ok h
  obtain ⟨ws, hwrites, hinside⟩ := foldlM_addsWithin hfold
  rw [List.nil_append] at hwrites
  exact ⟨ps, hps, by rw [hwrites, hinside]⟩

/-- A host where every command succeeds. -/
def idealHost (rootfsImage oemImage : Option RealImage) : Host :=
  ⟨rootfsImage, oemImage, fun _ _ => true⟩

/-- A matched pair of images that fill their slots. -/
def pairHost : Host :=
  idealHost (some ⟨"rootfs.img".toList, some 1073741824, none⟩)
    (some ⟨"oem.img".toList, some 134217728, none⟩)

theorem canonical_writes_inside :
    ∃ disk, mkimage pairHost wardenBlkdevparts = .ok disk ∧ disk.writes.length = 6 ∧
      ∀ w ∈ disk.writes, w.Inside := by
  have hlayout : partitions wardenBlkdevparts = .ok
      [⟨"env".toList, 0, 32768⟩, ⟨"idblock".toList, 32768, 524288⟩,
        ⟨"uboot".toList, 557056, 524288⟩, ⟨"misc".toList, 1081344, 524288⟩,
        ⟨"boot_a".toList, 1605632, 33554432⟩, ⟨"boot_b".toList, 35160064, 33554432⟩,
        ⟨"oem_a".toList, 68714496, 134217728⟩, ⟨"oem_b".toList, 202932224, 134217728⟩,
        ⟨"rootfs_a".toList, 337149952, 1073741824⟩, ⟨"rootfs_b".toList, 1410891776, 1073741824⟩,
        ⟨"recovery".toList, 2484633600, 33554432⟩, ⟨"userdata".toList, 2518188032, 1073741824⟩] := by
    decide +kernel
  have hrun : (mkimage pairHost wardenBlkdevparts).map (·.writes.length) = .ok 6 := by
    rw [mkimage, qemuEachPartition_of_partitions hlayout]
    decide +kernel
  cases hdisk : mkimage pairHost wardenBlkdevparts with
  | error e => rw [hdisk] at hrun; cases hrun
  | ok disk =>
    rw [hdisk] at hrun
    refine ⟨disk, rfl, Except.ok.inj hrun, ?_⟩
    obtain ⟨ps, hps, hinside⟩ := writes_inside_iff hdisk
    obtain rfl := Except.ok.inj (hps.symm.trans hlayout)
    refine hinside.mpr ?_
    have hreal {length : ℕ} {p : Partition} (hoff : (4096 : ℤ) ∣ p.off)
        (hsize : (length : ℤ) ≤ p.size) : ∀ n, some length = some n → n = 0 ∨
          ((4096 : ℤ) ∣ p.off ∧ (n : ℤ) ≤ p.size) ∨ (p.off < 0 ∧ (n : ℤ) ≤ p.off + p.size) := by
      rintro n hn
      cases hn
      exact .inr (.inl ⟨hoff, hsize⟩)
    simp only [List.forall_mem_cons]
    refine ⟨trivial, trivial, trivial, ?_, trivial, trivial, ?_, trivial, ?_, trivial, trivial,
      trivial, List.forall_mem_nil _⟩
    · show (524288 : ℤ) ≠ 0
      decide
    · exact hreal (by decide) (by decide)
    · exact hreal (by decide) (by decide)

/-- A real image at an offset between two blocks lands before its partition. -/
theorem unaligned_image_outside :
    ∃ disk, mkimage (idealHost (some ⟨"rootfs.img".toList, some 4096, none⟩) none)
        "vda:4K(env),1M@4608(rootfs_a)".toList = .ok disk ∧
      ∃ w ∈ disk.writes, ¬ w.Inside := by
  have hrun : mkimage (idealHost (some ⟨"rootfs.img".toList, some 4096, none⟩) none)
      "vda:4K(env),1M@4608(rootfs_a)".toList =
      .ok ⟨[⟨⟨"rootfs_a".toList, 4608, 1048576⟩, 4096, 4096⟩], 1053184⟩ := by decide +kernel
  refine ⟨_, hrun, _, List.mem_singleton_self _, fun hinside => ?_⟩
  have hfirst := hinside 4096 (by decide) (by decide)
  exact absurd hfirst.1 (by decide)

example : mkimage (idealHost none none) "vda:0(misc)".toList =
    .ok ⟨[⟨⟨"misc".toList, 0, 0⟩, 0, 32⟩], 0⟩ := by decide +kernel

example : mkimage (idealHost (some ⟨"latest.img".toList, some 8192, some 10⟩) none)
    "vda:4K(rootfs_a)".toList = .ok ⟨[⟨⟨"rootfs_a".toList, 0, 4096⟩, 0, 8192⟩], 4096⟩ := by
  decide +kernel

end Qemu
end WardenSdk

import RubberOS.Model.BootInfo
import RubberOS.Soundness.BootMmap

/-! # The boot information is read

The loop over the tags meets every tag once, whatever their number and order, and `g_bootinfo_arch` ends with what the
last tag of each kind says. The information itself and the rest of memory stay as they are.
-/

namespace RubberOS.Soundness.BootTags

open Model Model.BootMmap BootMmap

/-- The fields of the framebuffer tag that are copied. -/
structure FbInfo where
  addr : ℕ
  pitch : ℕ
  width : ℕ
  height : ℕ
  bppType : ℕ

inductive Tag where
  | cmd (text : List (BitVec 8))
  | mmap (entries : List (BitVec 8))
  | fb (info : FbInfo) (size : ℕ)
  | other (type size : ℕ)

def Tag.size : Tag → ℕ
  | .cmd text => 8 + text.length + 1
  | .mmap entries => 16 + entries.length
  | .fb _ size => size
  | .other _ size => size

def Tag.WellFormed : Tag → Prop
  | .cmd text => 0 ∉ text
  | .mmap entries => 24 ∣ entries.length ∧ entries ≠ []
  | .fb _ size => 30 ≤ size
  | .other type size => type ≠ 1 ∧ type ≠ 6 ∧ type ≠ 8 ∧ 8 ≤ size

def BytesAt (memory : Memory) (a : ℕ) (bytes : List (BitVec 8)) : Prop :=
  ∀ i (inside : i < bytes.length), memory (a + i) = bytes[i]

/-- The type of a tag and what follows its size. A command line ends with a NUL. -/
def ContentAt (memory : Memory) (a : ℕ) : Tag → Prop
  | .cmd text => load32 memory a = 1 ∧ BytesAt memory (a + 8) text ∧ memory (a + 8 + text.length) = 0
  | .mmap entries => load32 memory a = 6 ∧ load32 memory (a + 8) = 24 ∧ BytesAt memory (a + 16) entries
  | .fb info _ => load32 memory a = 8 ∧ load32 memory (a + 8) = info.addr ∧ load32 memory (a + 16) = info.pitch ∧
      load32 memory (a + 20) = info.width ∧ load32 memory (a + 24) = info.height ∧
      load16 memory (a + 28) = info.bppType
  | .other type _ => load32 memory a = type

structure TagAt (memory : Memory) (a : ℕ) (tag : Tag) : Prop where
  wellFormed : tag.WellFormed
  size : load32 memory (a + 4) = tag.size
  content : ContentAt memory a tag

/-- Where the tag behind one of this size starts. -/
def following (a size : ℕ) : ℕ := (a + size + 7) / 8 * 8

/-- The tags lie one after the other up to the end. -/
def TagsAt (memory : Memory) (stop : ℕ) : ℕ → List Tag → Prop
  | a, [] => stop ≤ a
  | a, tag :: tags => a + tag.size ≤ stop ∧ TagAt memory a tag ∧ TagsAt memory stop (following a tag.size) tags

/-- The information at `ebx`, apart from the kernel. -/
structure Information (arch : BootinfoArch) (memory : Memory) (ebx stop : ℕ) (tags : List Tag) : Prop where
  total : ebx + load32 memory ebx = stop
  placed : TagsAt memory stop (ebx + 8) tags
  nonempty : tags ≠ []
  bounded : stop + 7 < 2 ^ 32
  short : stop < ebx + 2 ^ 31
  kernel : arch.stop < 2 ^ 32
  apart : stop ≤ arch.base ∨ arch.stop ≤ ebx

/-! ## What the kernel knows -/

/-- The contents of `g_bootinfo_arch`. -/
structure Info where
  cmd : ℕ → BitVec 8
  fb : FbInfo
  mmap : List (BitVec 8)

/-- A command line is written over the one before. The last entry of a memory map is left out. -/
def Info.put (info : Info) : Tag → Info
  | .cmd text => { info with cmd := fun i => (text.take (BOOTINFO_CMD_MAXLEN - 1))[i]?.getD (info.cmd i) }
  | .mmap entries => { info with mmap := entries.take (24 * min (entries.length / 24 - 1) 128) }
  | .fb fb _ => { info with fb }
  | .other _ _ => info

structure Holds (arch : BootinfoArch) (info : Info) (memory : Memory) : Prop where
  cmd : ∀ i < BOOTINFO_CMD_MAXLEN, memory (arch.cmd + i) = info.cmd i
  addr : load32 memory arch.fb = info.fb.addr
  pitch : load32 memory (arch.fb + 4) = info.fb.pitch
  width : load32 memory (arch.fb + 8) = info.fb.width
  height : load32 memory (arch.fb + 12) = info.fb.height
  bppType : load16 memory (arch.fb + 16) = info.fb.bppType
  len : load32 memory arch.mmap = info.mmap.length / 24
  entries : BytesAt memory (arch.mmap + 8) info.mmap
  room : info.mmap.length ≤ 24 * 128

/-- Nothing outside of `g_bootinfo_arch` has changed. -/
def Outside (arch : BootinfoArch) (memory memory' : Memory) : Prop :=
  ∀ x, (x < arch.base ∨ arch.stop ≤ x) → memory' x = memory x

section Tags

variable {arch : BootinfoArch} {memory memory' : Memory} {a b ebx stop : ℕ} {tag : Tag} {tags : List Tag} {info : Info}
  {text : List (BitVec 8)}

private theorem load32_lt (memory : Memory) (a : ℕ) : load32 memory a < 2 ^ 32 := by
  have first := (memory a).isLt
  have second := (memory (a + 1)).isLt
  have third := (memory (a + 2)).isLt
  have fourth := (memory (a + 3)).isLt
  rw [load32]
  omega

private theorem Tag.WellFormed.size (wellFormed : tag.WellFormed) : 8 ≤ tag.size := by
  cases tag with
  | cmd text =>
    rw [Tag.size]
    omega
  | mmap entries =>
    rw [Tag.size]
    omega
  | fb info size => exact Nat.le_trans (by decide) wellFormed
  | other type size => exact wellFormed.2.2.2

private theorem BytesAt.congr (bytes : BytesAt memory a text)
    (same : ∀ x, a ≤ x → x < a + text.length → memory' x = memory x) : BytesAt memory' a text := by
  intro i inside
  rw [same (a + i) (by omega) (by omega)]
  exact bytes i inside

/-- A tag stays where it is when nothing in it changes. -/
private theorem TagAt.congr (placed : TagAt memory a tag)
    (same : ∀ x, a ≤ x → x < a + tag.size → memory' x = memory x) : TagAt memory' a tag := by
  obtain ⟨wellFormed, size, content⟩ := placed
  have large := wellFormed.size
  have word (d : ℕ) (inside : d + 4 ≤ tag.size) : load32 memory' (a + d) = load32 memory (a + d) :=
    load32_congr fun b small => same _ (by omega) (by omega)
  have first : load32 memory' a = load32 memory a := word 0 (by omega)
  refine ⟨wellFormed, (word 4 (by omega)).trans size, ?_⟩
  cases tag with
  | cmd text =>
    rw [Tag.size] at same
    obtain ⟨type, bytes, last⟩ := content
    exact ⟨first.trans type, bytes.congr fun x above below => same x (by omega) (by omega),
      (same _ (by omega) (by omega)).trans last⟩
  | mmap entries =>
    rw [Tag.size] at same word
    obtain ⟨type, size, bytes⟩ := content
    exact ⟨first.trans type, (word 8 (by omega)).trans size,
      bytes.congr fun x above below => same x (by omega) (by omega)⟩
  | fb info length =>
    have large : 30 ≤ length := wellFormed
    rw [Tag.size] at same word
    obtain ⟨type, addr, pitch, width, height, bppType⟩ := content
    exact ⟨first.trans type, (word 8 (by omega)).trans addr, (word 16 (by omega)).trans pitch,
      (word 20 (by omega)).trans width, (word 24 (by omega)).trans height,
      (load16_congr (same _ (by omega) (by omega)) (same _ (by omega) (by omega))).trans bppType⟩
  | other type size => exact first.trans content

private theorem le_following (a size : ℕ) : a + size ≤ following a size := by
  rw [following]
  omega

private theorem TagsAt.congr (placed : TagsAt memory stop a tags)
    (same : ∀ x, a ≤ x → x < stop → memory' x = memory x) : TagsAt memory' stop a tags := by
  induction tags generalizing a with
  | nil => exact placed
  | cons tag tags ih =>
    obtain ⟨inside, first, rest⟩ := placed
    refine ⟨inside, first.congr fun x above below => same x above (by omega), ih rest fun x above below => ?_⟩
    have next := le_following a tag.size
    exact same x (by omega) below

/-! ## One tag -/

/-- The loop copies the text up to its NUL, or as far as there are turns. -/
private theorem cmdLoop_spec (turns : ℕ) {esi edi : ℕ} (bytes : BytesAt memory esi text)
    (last : memory (esi + text.length) = 0)
    (full : 0 ∉ text) (source : esi + text.length + 1 < 2 ^ 32) (target : edi + turns < 2 ^ 32)
    (apart : esi + text.length < edi ∨ edi + turns ≤ esi) (x : ℕ) : cmdLoop turns esi edi memory x =
      if edi ≤ x then (text.take turns)[x - edi]?.getD (memory x) else memory x := by
  induction turns generalizing esi edi memory text with
  | zero =>
    rw [cmdLoop, List.take_zero]
    simp
  | succ turns ih =>
    rw [cmdLoop]
    cases text with
    | nil =>
      have stops : memory esi = 0 := last
      rw [if_pos stops]
      simp
    | cons c text =>
      have first : memory esi = c := bytes 0 (Nat.succ_pos _)
      have goes : ¬c = 0 := by
        rintro rfl
        exact full List.mem_cons_self
      rw [List.length_cons] at last source apart
      have rest : BytesAt (Function.update memory edi c) (esi + 1) text := by
        intro i inside
        rw [Function.update_of_ne (by omega), Nat.add_assoc, Nat.add_comm 1]
        exact bytes (i + 1) (Nat.succ_lt_succ inside)
      have lastRest : Function.update memory edi c (esi + 1 + text.length) = 0 := by
        rw [Function.update_of_ne (by omega), Nat.add_assoc, Nat.add_comm 1]
        exact last
      rw [first, if_neg goes, u32_of_lt (by omega), u32_of_lt (by omega),
        ih rest lastRest (fun member => full (List.mem_cons_of_mem _ member)) (by omega) (by omega) (by omega),
        List.take_succ_cons]
      rcases Nat.lt_trichotomy x edi with below | rfl | above
      · rw [if_neg (by omega), if_neg (by omega), Function.update_of_ne (by omega)]
      · rw [if_neg (by omega), if_pos (Nat.le_refl x), Function.update_self, Nat.sub_self]
        rfl
      · have split : x - edi = x - (edi + 1) + 1 := by omega
        rw [if_pos (by omega), if_pos (by omega), Function.update_of_ne (by omega), split, List.getElem?_cons_succ]

private theorem mbiCmd_spec (placed : TagAt memory a (.cmd text)) (bounded : a + (8 + text.length + 1) + 7 < 2 ^ 32)
    (short : 8 + text.length + 1 < 2 ^ 31) (kernel : arch.stop < 2 ^ 32)
    (apart : a + (8 + text.length + 1) ≤ arch.base ∨ arch.stop ≤ a) (x : ℕ) : mbiCmd arch memory a x =
      if arch.cmd ≤ x then (text.take (BOOTINFO_CMD_MAXLEN - 1))[x - arch.cmd]?.getD (memory x) else memory x := by
  obtain ⟨full, size, _, bytes, last⟩ := placed
  have kernel : arch.base + 3368 < 2 ^ 32 := kernel
  have apart : a + (8 + text.length + 1) ≤ arch.base ∨ arch.base + 3368 ≤ a := apart
  have length : (BitVec.ofNat 32 (8 + text.length + 1) - 8).toNat = text.length + 1 := by
    rw [BitVec.toNat_sub_of_le (BitVec.le_def.mpr (by rw [BitVec.toNat_ofNat]; simp; omega)), BitVec.toNat_ofNat,
      Nat.mod_eq_of_lt (by omega)]
    simp
    omega
  have turns : (if (255 : BitVec 32).slt (BitVec.ofNat 32 (8 + text.length + 1) - 8) then 255
      else BitVec.ofNat 32 (8 + text.length + 1) - 8 : BitVec 32).toInt.toNat = min 255 (text.length + 1) := by
    have signed : (BitVec.ofNat 32 (8 + text.length + 1) - 8).toInt = text.length + 1 := by
      rw [BitVec.toInt_eq_toNat_of_lt (by omega), length]
      rfl
    split
    · rename_i long
      rw [BitVec.slt_iff_toInt_lt, signed] at long
      have value : (255 : BitVec 32).toInt = 255 := rfl
      rw [value] at long ⊢
      omega
    · rename_i fits
      rw [BitVec.slt_iff_toInt_lt, signed] at fits
      have value : (255 : BitVec 32).toInt = 255 := rfl
      rw [value] at fits
      rw [signed]
      omega
  have taken : text.take (min 255 (text.length + 1)) = text.take 255 := by
    by_cases long : 255 ≤ text.length
    · rw [Nat.min_eq_left (by omega)]
    · rw [List.take_of_length_le (by omega), List.take_of_length_le (by omega)]
  rw [mbiCmd, u32_of_lt (show a + 4 < 2 ^ 32 by omega), size, Tag.size, u32_of_lt (show a + 8 < 2 ^ 32 by omega)]
  change cmdLoop (if (255 : BitVec 32).slt (BitVec.ofNat 32 (8 + text.length + 1) - 8) then 255
      else BitVec.ofNat 32 (8 + text.length + 1) - 8 : BitVec 32).toInt.toNat (a + 8) arch.base memory x = _
  rw [turns, cmdLoop_spec (min 255 (text.length + 1)) bytes last full (by omega) (by omega) (by omega), taken]
  rfl

private theorem mbiFb_spec {fb : FbInfo} {size : ℕ} (placed : TagAt memory a (.fb fb size))
    (bounded : a + size + 7 < 2 ^ 32)
    (apart : a + size ≤ arch.base ∨ arch.stop ≤ a) : ∃ after, mbiFb arch memory a = after ∧
      load32 after arch.fb = fb.addr ∧ load32 after (arch.fb + 4) = fb.pitch ∧
      load32 after (arch.fb + 8) = fb.width ∧ load32 after (arch.fb + 12) = fb.height ∧
      load16 after (arch.fb + 16) = fb.bppType ∧ ∀ x, (x < arch.fb ∨ arch.fb + 18 ≤ x) → after x = memory x := by
  obtain ⟨wellFormed, _, _, addr, pitch, width, height, bppType⟩ := placed
  have large : 30 ≤ size := wellFormed
  have place : arch.fb = arch.base + 264 := rfl
  have apart : a + size ≤ arch.base ∨ arch.base + 3368 ≤ a := apart
  let first := store32 memory arch.fb fb.addr
  let second := store32 first (arch.fb + 4) fb.pitch
  let third := store32 second (arch.fb + 8) fb.width
  let fourth := store32 third (arch.fb + 12) fb.height
  have other {memory : Memory} {b v x : ℕ} (outside : x < b ∨ b + 4 ≤ x) : store32 memory b v x = memory x :=
    store32_of_outside outside
  have firstSame (x : ℕ) (outside : x < arch.fb ∨ arch.fb + 18 ≤ x) : first x = memory x := other (by omega)
  have secondSame (x : ℕ) (outside : x < arch.fb ∨ arch.fb + 18 ≤ x) : second x = memory x :=
    (other (by omega)).trans (firstSame x outside)
  have thirdSame (x : ℕ) (outside : x < arch.fb ∨ arch.fb + 18 ≤ x) : third x = memory x :=
    (other (by omega)).trans (secondSame x outside)
  have fourthSame (x : ℕ) (outside : x < arch.fb ∨ arch.fb + 18 ≤ x) : fourth x = memory x :=
    (other (by omega)).trans (thirdSame x outside)
  have pitchRead : load32 first (a + 16) = fb.pitch :=
    (load32_congr fun b small => firstSame _ (by omega)).trans pitch
  have widthRead : load32 second (a + 20) = fb.width :=
    (load32_congr fun b small => secondSame _ (by omega)).trans width
  have heightRead : load32 third (a + 24) = fb.height :=
    (load32_congr fun b small => thirdSame _ (by omega)).trans height
  have typeRead : load16 fourth (a + 28) = fb.bppType :=
    (load16_congr (fourthSame _ (by omega)) (fourthSame _ (by omega))).trans bppType
  have ran : mbiFb arch memory a = store16 fourth (arch.fb + 16) fb.bppType := by
    rw [mbiFb, u32_of_lt (show a + 8 < 2 ^ 32 by omega), u32_of_lt (show a + 16 < 2 ^ 32 by omega),
      u32_of_lt (show a + 20 < 2 ^ 32 by omega), u32_of_lt (show a + 24 < 2 ^ 32 by omega),
      u32_of_lt (show a + 28 < 2 ^ 32 by omega), addr]
    rw [pitchRead, widthRead, heightRead, typeRead]
  have last {x : ℕ} (outside : x < arch.fb + 16 ∨ arch.fb + 18 ≤ x) :
      store16 fourth (arch.fb + 16) fb.bppType x = fourth x := store16_apply (by omega) (by omega)
  refine ⟨_, ran, ?_, ?_, ?_, ?_, ?_, fun x outside => (last (by omega)).trans (fourthSame x outside)⟩
  · have kept : load32 (store16 fourth (arch.fb + 16) fb.bppType) arch.fb = load32 first arch.fb :=
      load32_congr fun b small => (last (by omega)).trans ((other (by omega)).trans ((other (by omega)).trans
        (other (by omega))))
    rw [kept]
    exact load32_store32 (addr ▸ load32_lt memory _)
  · have kept : load32 (store16 fourth (arch.fb + 16) fb.bppType) (arch.fb + 4) = load32 second (arch.fb + 4) :=
      load32_congr fun b small => (last (by omega)).trans ((other (by omega)).trans (other (by omega)))
    rw [kept]
    exact load32_store32 (pitch ▸ load32_lt memory _)
  · have kept : load32 (store16 fourth (arch.fb + 16) fb.bppType) (arch.fb + 8) = load32 third (arch.fb + 8) :=
      load32_congr fun b small => (last (by omega)).trans (other (by omega))
    rw [kept]
    exact load32_store32 (width ▸ load32_lt memory _)
  · have kept : load32 (store16 fourth (arch.fb + 16) fb.bppType) (arch.fb + 12) = load32 fourth (arch.fb + 12) :=
      load32_congr fun b small => last (by omega)
    rw [kept]
    exact load32_store32 (height ▸ load32_lt memory _)
  · rw [load16_store16]
    exact u16_of_lt (bppType ▸ load16_lt memory _)

/-- Each tag is taken over, and nothing else is written. -/
private theorem mbiTag_spec (placed : TagAt memory a tag) (bounded : a + tag.size + 7 < 2 ^ 32)
    (short : tag.size < 2 ^ 31)
    (kernel : arch.stop < 2 ^ 32) (apart : a + tag.size ≤ arch.base ∨ arch.stop ≤ a) (holds : Holds arch info memory) :
    ∃ after, mbiTag arch memory a = .ok after ∧ Holds arch (info.put tag) after ∧ Outside arch memory after := by
  have command : arch.cmd = arch.base := rfl
  have place : arch.fb = arch.base + 264 := rfl
  have map : arch.mmap = arch.base + 288 := rfl
  have stop : arch.stop = arch.base + 3368 := rfl
  have length : BOOTINFO_CMD_MAXLEN = 256 := rfl
  obtain ⟨cmd, addr, pitch, width, height, bppType, len, entries, room⟩ := holds
  cases tag with
  | cmd text =>
    have copied := mbiCmd_spec placed bounded short kernel apart
    have kept (x : ℕ) (outside : x < arch.base ∨ arch.base + 256 ≤ x) : mbiCmd arch memory a x = memory x := by
      rw [copied]
      split
      · rw [List.getElem?_eq_none (by rw [List.length_take]; omega)]
        rfl
      · rfl
    have word (x : ℕ) (outside : arch.base + 256 ≤ x) : load32 (mbiCmd arch memory a) x = load32 memory x :=
      load32_congr fun b small => kept _ (by omega)
    refine ⟨_, if_pos placed.content.1, ⟨fun i inside => ?_, (word _ (by omega)).trans addr,
      (word _ (by omega)).trans pitch, (word _ (by omega)).trans width, (word _ (by omega)).trans height,
      (load16_congr (kept _ (by omega)) (kept _ (by omega))).trans bppType, (word _ (by omega)).trans len,
      entries.congr fun x above _ => kept x (by omega), room⟩, fun x outside => kept x (by omega)⟩
    rw [copied, if_pos (Nat.le_add_right _ i), Nat.add_sub_cancel_left, cmd i inside]
    rfl
  | mmap bytes =>
    obtain ⟨⟨divides, nonempty⟩, size, type, entrySize, source⟩ := placed
    obtain ⟨n, whole⟩ := divides
    have positive : 1 ≤ n := by
      have some_byte := List.length_pos_iff.mpr nonempty
      omega
    rw [Tag.size] at size bounded short apart
    have tag : MmapTag memory a arch.mmap n :=
      ⟨type, by rw [size, whole], entrySize, by omega, by omega, by omega⟩
    obtain ⟨after, ran, count, copied, kept⟩ := mbiMmap_spec tag positive
    have entryCount : bytes.length / 24 = n := by omega
    have taken : (bytes.take (24 * min (bytes.length / 24 - 1) 128)).length = 24 * min (n - 1) 128 := by
      rw [List.length_take, entryCount]
      omega
    have word (x : ℕ) (below : x + 4 ≤ arch.mmap) : load32 after x = load32 memory x :=
      load32_congr fun b small => kept _ (by omega)
    refine ⟨after, ?_, ⟨fun i inside => (kept _ (by omega)).trans (cmd i inside), (word _ (by omega)).trans addr,
      (word _ (by omega)).trans pitch, (word _ (by omega)).trans width, (word _ (by omega)).trans height,
      (load16_congr (kept _ (by omega)) (kept _ (by omega))).trans bppType, ?_, fun i inside => ?_, ?_⟩,
      fun x outside => kept x (by omega)⟩
    · rw [mbiTag, type]
      exact ran
    · change load32 after arch.mmap = (bytes.take (24 * min (bytes.length / 24 - 1) 128)).length / 24
      rw [count, taken]
      omega
    · change i < (bytes.take (24 * min (bytes.length / 24 - 1) 128)).length at inside
      rw [taken] at inside
      rw [copied i inside, source i (by omega)]
      exact List.getElem_take.symm
    · change (bytes.take (24 * min (bytes.length / 24 - 1) 128)).length ≤ 24 * 128
      rw [taken]
      omega
  | fb fb size =>
    obtain ⟨after, ran, addr, pitch, width, height, bppType, kept⟩ := mbiFb_spec placed bounded apart
    have type : load32 memory a = 8 := placed.content.1
    refine ⟨after, ?_, ⟨fun i inside => (kept _ (by omega)).trans (cmd i inside), addr, pitch, width, height, bppType,
      (load32_congr fun b small => kept _ (by omega)).trans len, entries.congr fun x above _ => kept x (by omega),
      room⟩,
      fun x outside => kept x (by omega)⟩
    rw [mbiTag, type, ran]
    rfl
  | other type size =>
    have first : load32 memory a = type := placed.content
    obtain ⟨one, six, eight, _⟩ := placed.wellFormed
    refine ⟨memory, ?_, ⟨cmd, addr, pitch, width, height, bppType, len, entries, room⟩, fun _ _ => rfl⟩
    rw [mbiTag, first, if_neg one, if_neg six, if_neg eight]

/-! ## All tags -/

private theorem mbiCont_eq (placed : TagAt memory a tag) (bounded : a + tag.size + 7 < 2 ^ 32) :
    mbiCont memory a = following a tag.size := by
  have large := placed.wellFormed.size
  rw [mbiCont, u32_of_lt (show a + 4 < 2 ^ 32 by omega), placed.size,
    u32_of_lt (show a + tag.size < 2 ^ 32 by omega), u32_of_lt (show a + tag.size + 7 < 2 ^ 32 by omega), following]

/-- From a tag on the loop takes over all that follow. -/
private theorem mbiLoop_spec (fuel : ℕ) (nonempty : tags ≠ []) (placed : TagsAt memory stop a tags)
    (bounded : stop + 7 < 2 ^ 32) (short : stop < a + 2 ^ 31) (kernel : arch.stop < 2 ^ 32)
    (apart : stop ≤ arch.base ∨ arch.stop ≤ a) (holds : Holds arch info memory) (enough : tags.length ≤ fuel) :
    ∃ after, mbiLoop arch stop fuel a memory = .ok after ∧ Holds arch (tags.foldl Info.put info) after ∧
      Outside arch memory after := by
  induction tags generalizing a memory info fuel with
  | nil => exact absurd rfl nonempty
  | cons tag tags ih =>
    obtain ⟨fuel, rfl⟩ := Nat.exists_eq_add_one.mpr (Nat.zero_lt_of_lt enough)
    obtain ⟨inside, first, rest⟩ := placed
    have large := first.wellFormed.size
    obtain ⟨next, ran, nextHolds, outside⟩ :=
      mbiTag_spec first (by omega) (by omega) kernel (by omega) holds
    have same (x : ℕ) (above : a ≤ x) (below : x < stop) : next x = memory x := outside x (by omega)
    have step : mbiCont next a = following a tag.size :=
      mbiCont_eq (first.congr fun x above below => same x above (by omega)) (by omega)
    have further := le_following a tag.size
    have restThere : TagsAt next stop (following a tag.size) tags :=
      rest.congr fun x above below => same x (by omega) below
    rw [mbiLoop, ran, Except.ok_bind]
    dsimp only
    rw [step]
    cases tags with
    | nil =>
      have ends : stop ≤ following a tag.size := rest
      rw [if_neg (by omega)]
      exact ⟨next, rfl, nextHolds, outside⟩
    | cons second tags =>
      have goes : following a tag.size < stop := by
        have secondInside := rest.1
        have secondLarge := rest.2.1.wellFormed.size
        omega
      rw [if_pos goes]
      obtain ⟨after, ran', afterHolds, outside'⟩ :=
        ih fuel (List.cons_ne_nil _ _) restThere (by omega) (by omega) nextHolds (Nat.le_of_succ_le_succ enough)
      exact ⟨after, ran', afterHolds, fun x out => (outside' x out).trans (outside x out)⟩

/-- Whatever tags the boot loader hands over, in whatever order: the loop ends behind the last one, and the kernel's
record holds what each tag in turn has put there. Nothing else in memory has changed. -/
theorem boot_information_read (information : Information arch memory ebx stop tags) (holds : Holds arch info memory)
    {fuel : ℕ} (enough : tags.length ≤ fuel) : ∃ after, mbi arch fuel memory ebx = .ok after ∧
      Holds arch (tags.foldl Info.put info) after ∧ Outside arch memory after := by
  obtain ⟨total, placed, nonempty, bounded, short, kernel, apart⟩ := information
  have low : ebx + 8 < 2 ^ 32 := by
    cases tags with
    | nil => exact absurd rfl nonempty
    | cons tag tags =>
      have inside := placed.1
      omega
  rw [mbi, total, u32_of_lt (by omega), u32_of_lt low]
  exact mbiLoop_spec fuel nonempty placed bounded (by omega) kernel (by omega) holds enough

/-- At 64 KiB the command line `a` and the tag that ends the list; the rest of memory is zero. -/
def sampleInformation : Memory := fun x =>
  if x < 0x10020 then
    [32, 0, 0, 0, 0, 0, 0, 0, 1, 0, 0, 0, 10, 0, 0, 0,
      97, 0, 0, 0, 0, 0, 0, 0, 0, 0, 0, 0, 8, 0, 0, 0].getD (x - 0x10000) 0
  else 0

theorem boot_information_read_sample : ∃ after, mbi ⟨0x200000⟩ 2 sampleInformation 0x10000 = .ok after ∧
    after 0x200000 = 97 ∧ after 0x200001 = 0 := by
  have information : Information ⟨0x200000⟩ sampleInformation 0x10000 0x10020 [.cmd [97], .other 0 8] :=
    { total := by rfl
      placed := by
        have text : BytesAt sampleInformation 0x10010 [97] := by
          intro i inside
          obtain rfl : i = 0 := by simpa using inside
          rfl
        have command : (Tag.cmd [97]).WellFormed := show (0 : BitVec 8) ∉ [97] by decide
        have last : (Tag.other 0 8).WellFormed := show 0 ≠ 1 ∧ 0 ≠ 6 ∧ 0 ≠ 8 ∧ 8 ≤ 8 by decide
        exact ⟨by decide, ⟨command, by rfl, by rfl, text, by rfl⟩, by decide, ⟨last, by rfl, by rfl⟩,
          Nat.le_refl 0x10020⟩
      nonempty := List.cons_ne_nil _ _
      bounded := by decide
      short := by decide
      kernel := by decide
      apart := by decide }
  have zero (x : ℕ) (above : 0x200000 ≤ x) : sampleInformation x = 0 := if_neg (by omega)
  have holds : Holds ⟨0x200000⟩ ⟨fun _ => 0, ⟨0, 0, 0, 0, 0⟩, []⟩ sampleInformation :=
    { cmd := fun i _ => zero _ (Nat.le_add_right ..)
      addr := by rfl
      pitch := by rfl
      width := by rfl
      height := by rfl
      bppType := by rfl
      len := by rfl
      entries := fun i inside => absurd inside (Nat.not_lt_zero i)
      room := by decide }
  obtain ⟨after, ran, held, _⟩ := boot_information_read information holds (Nat.le_refl 2)
  exact ⟨after, ran, held.cmd 0 (by decide), held.cmd 1 (by decide)⟩

end Tags

end RubberOS.Soundness.BootTags

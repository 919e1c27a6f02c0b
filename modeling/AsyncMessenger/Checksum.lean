import AsyncMessenger.Buffers
import AsyncMessenger.CrcTables
import AsyncMessenger.Lib.ShiftRegister

/-!
# The checksum

`msgr_crc32c_intel_baseline` takes one byte at a time. `msgr_crc32c_sctp` takes bytes up to an aligned
address, then groups of eight bytes with eight tables, then the bytes that are left. Both are the shift
register of the reflected polynomial `0x82F63B78`, so they agree wherever the data lie and however a list
is segmented. The assembler routine `msgr_crc32c_intel_fast` is a parameter.

## Tables and register

The tables of the sources are compared with what the register makes of a single byte (`TablesEq`);
from there on no table is looked at. One byte is one table, and eight bytes are eight tables because
the register is linear: what a byte contributes does not depend on the others. The alignment only
says how many bytes are taken one at a time at the beginning, so it cannot matter, and neither can
the segments, since the register goes on from where it has stopped.
-/

namespace AsyncMessenger

open Buffer ShiftRegister

namespace Checksum

/-- A data pointer with a length: `NULL`, or an address and the bytes that lie there. -/
inductive Data
  | null (length : ℕ)
  | at (address : ℕ) (bytes : Bytes)
  deriving DecidableEq, Repr

/-- The bytes the checksum is taken of: `NULL` stands for zeros. -/
def Data.bytes : Data → Bytes
  | .null length => List.replicate length 0
  | .at _ bytes => bytes

/-- `msgr_crc32c_func_t`. -/
abbrev Func := BitVec 32 → Data → BitVec 32

/-- `table[x & 0xff]`. -/
def look (table : List ℕ) (x : BitVec 32) : BitVec 32 :=
  BitVec.ofNat 32 (table.getD (x &&& 255#32).toNat 0)

/-! ## The baseline -/

/-- `msgr_crc32c_intel_baseline`. -/
def intelBaseline : Func
  | crc, .at _ bytes =>
    bytes.foldl (fun crc b ↦ crc >>> 8 ^^^ look tableIscsiBase (crc &&& 255#32 ^^^ ofByte b)) crc
  | crc, .null length => (fun crc : BitVec 32 ↦ crc >>> 8 ^^^ look tableIscsiBase crc)^[length] crc

/-! ## Slicing by eight -/

/-- The loops over single bytes. -/
def byteLoop (crc : BitVec 32) (bytes : Bytes) : BitVec 32 :=
  bytes.foldl (fun crc b ↦ look tableil8O32 (crc ^^^ ofByte b) ^^^ crc >>> 8) crc

/-- What the first four bytes of a group do, once they have been added to `crc`. -/
def firstHalf (crc : BitVec 32) : BitVec 32 :=
  let term1 := look tableil8O88 crc ^^^ look tableil8O80 (crc >>> 8)
  let term2 := crc >>> 16
  term1 ^^^ look tableil8O72 term2 ^^^ look tableil8O64 (term2 >>> 8)

/-- What the last four bytes of a group do. -/
def secondHalf (crc word : BitVec 32) : BitVec 32 :=
  let term1 := look tableil8O56 word ^^^ look tableil8O48 (word >>> 8)
  let term2 := word >>> 16
  crc ^^^ term1 ^^^ look tableil8O40 term2 ^^^ look tableil8O32 (term2 >>> 8)

/-- The loop over groups of eight bytes. -/
def groupLoop : ℕ → BitVec 32 → Bytes → BitVec 32
  | 0, crc, _ => crc
  | n + 1, crc, bytes =>
    groupLoop n (secondHalf (firstHalf (crc ^^^ load (bytes.take 4))) (load ((bytes.drop 4).take 4)))
      (bytes.drop 8)

/-- `init_bytes`. -/
def initBytes (length offset : ℕ) : ℕ := min ((4 - offset) % 4) length

/-- `sctp_crc32c_sb8_64_bit`. -/
def sb8 (crc : BitVec 32) (bytes : Bytes) (offset : ℕ) : BitVec 32 :=
  let init := initBytes bytes.length offset
  let groups := (bytes.length - init) / 8
  let crc := byteLoop crc (bytes.take init)
  let crc := groupLoop groups crc (bytes.drop init)
  byteLoop crc (bytes.drop (init + groups * 8))

/-- `sctp_crc32c_sb8_64_bit_zero`. -/
def sb8Zero (crc : BitVec 32) (length offset : ℕ) : BitVec 32 :=
  let init := initBytes length offset
  let groups := (length - init) / 8
  let byte := fun crc ↦ look tableil8O32 crc ^^^ crc >>> 8
  let crc := byte^[init] crc
  let crc := (fun crc ↦ secondHalf (firstHalf crc) 0#32)^[groups] crc
  byte^[length - init - groups * 8] crc

/-- `update_crc32`, that is `msgr_crc32c_sctp`. -/
def sctp : Func
  | crc, .at address bytes => if bytes.length = 0 then crc else sb8 crc bytes (address % 4)
  | crc, .null length => if length = 0 then crc else sb8Zero crc length 0

/-- `msgr_choose_crc32`. -/
def chooseCrc32 (fast : Func) (intelSse42 intelFastExists : Bool) : Func :=
  if intelSse42 && intelFastExists then fast else sctp

end Checksum

/-- `buffer::list::crc32c`. -/
def BufferList.crc32c (func : Checksum.Func) (h : Heap) (crc : BitVec 32) (l : BufferList) : BitVec 32 :=
  l.buffers.foldl (fun crc p ↦ if p.len = 0 then crc else func crc (.at (p.address h) (p.bytes h))) crc

namespace Checksum

/-! ## The register

The register belongs to a library of its own, where it is a polynomial division. Here its value
after a byte and after eight bytes is computed from the tables. -/

/-- The generator polynomial `0x1EDC6F41`, its bits reflected. -/
abbrev poly : BitVec 32 := 0x82F63B78#32

/-- The images of single bytes under so many shifts. -/
def images (n : ℕ) : List ℕ := (List.range 256).map (stepNat 0x82F63B78)^[n]

theorem getD_images (n : ℕ) {i : ℕ} (hi : i < 256) :
    BitVec.ofNat 32 ((images n).getD i 0) = (step poly)^[n] (BitVec.ofNat 32 i) := by
  have hget : (images n).getD i 0 = (stepNat 0x82F63B78)^[n] i := by
    simp [images, List.getD_eq_getElem?_getD, List.getElem?_range hi]
  have himage : ((step poly)^[n] (BitVec.ofNat 32 i)).toNat = (stepNat 0x82F63B78)^[n] i := by
    have hbyte : (BitVec.ofNat 32 i).toNat = i := Nat.mod_eq_of_lt (by omega)
    rw [toNat_iterate_step, hbyte]
    rfl
  apply BitVec.eq_of_toNat_eq
  rw [BitVec.toNat_ofNat, hget, ← himage, Nat.mod_eq_of_lt (BitVec.isLt _)]

/-- The table is what eight more shifts make of the one before. -/
def Follows (table table' : List ℕ) : Prop := table' = table.map (stepNat 0x82F63B78)^[8]

instance (table table' : List ℕ) : Decidable (Follows table table') := inferInstanceAs (Decidable (_ = _))

/-- Each table is the image of the previous one under eight shifts. -/
theorem images_next {table table' : List ℕ} {n : ℕ} (h : table = images n)
    (hnext : Follows table table') : table' = images (n + 8) := by
  rw [Follows] at hnext
  rw [hnext, h, images, images, List.map_map, Nat.add_comm, Function.iterate_add]

/-- The first two tables are the same, and each other one follows another. -/
theorem tables_follow : tableIscsiBase = images 8 ∧ tableil8O32 = images 8 ∧
    Follows tableil8O32 tableil8O40 ∧ Follows tableil8O40 tableil8O48 ∧
    Follows tableil8O48 tableil8O56 ∧ Follows tableil8O56 tableil8O64 ∧
    Follows tableil8O64 tableil8O72 ∧ Follows tableil8O72 tableil8O80 ∧
    Follows tableil8O80 tableil8O88 := by
  decide +kernel

/-- What each table holds. -/
structure TablesEq : Prop where
  base : tableIscsiBase = images 8
  o32 : tableil8O32 = images 8
  o40 : tableil8O40 = images 16
  o48 : tableil8O48 = images 24
  o56 : tableil8O56 = images 32
  o64 : tableil8O64 = images 40
  o72 : tableil8O72 = images 48
  o80 : tableil8O80 = images 56
  o88 : tableil8O88 = images 64

theorem tables_eq : TablesEq := by
  obtain ⟨base, o32, h40, h48, h56, h64, h72, h80, h88⟩ := tables_follow
  have o40 := images_next o32 h40
  have o48 := images_next o40 h48
  have o56 := images_next o48 h56
  have o64 := images_next o56 h64
  have o72 := images_next o64 h72
  have o80 := images_next o72 h80
  exact ⟨base, o32, o40, o48, o56, o64, o72, o80, images_next o80 h88⟩

theorem toNat_and_lt (x : BitVec 32) : (x &&& 255#32).toNat < 256 := by
  rw [BitVec.toNat_and]
  exact Nat.lt_of_le_of_lt Nat.and_le_right (by decide)

/-- Looking up the low byte is shifting it. -/
theorem look_eq {table : List ℕ} {n : ℕ} (h : table = images n) (x : BitVec 32) :
    look table x = (step poly)^[n] (x &&& 255#32) := by
  rw [look, h, getD_images n (toNat_and_lt x), BitVec.ofNat_toNat, BitVec.setWidth_eq]

/-- The low byte leaves the register, the others move up. -/
theorem iterate_step_low (n : ℕ) (x : BitVec 32) :
    (step poly)^[n + 8] x = (step poly)^[n + 8] (x &&& 255#32) ^^^ (step poly)^[n] (x >>> 8) := by
  have hsplit : x = (x &&& 255#32) ^^^ (x >>> 8) <<< 8 := by
    apply BitVec.eq_of_getLsbD_eq
    intro i hi
    have hmask : (255#32).getLsbD i = decide (i < 8) := by
      revert i
      decide
    rw [BitVec.getLsbD_xor, BitVec.getLsbD_and, hmask, BitVec.getLsbD_shiftLeft,
      BitVec.getLsbD_ushiftRight]
    by_cases hlow : i < 8
    · simp [hlow]
    · simp [hi, hlow, show 8 + (i - 8) = i by omega]
  have hhigh : (x >>> 8).toNat * 2 ^ 8 < 2 ^ 32 := by
    rw [BitVec.toNat_ushiftRight, Nat.shiftRight_eq_div_pow]
    have := x.isLt
    omega
  have hshift : (step poly)^[n + 8] ((x >>> 8) <<< 8) = (step poly)^[n] (x >>> 8) := by
    rw [Function.iterate_add_apply, iterate_step_shiftLeft poly hhigh]
  conv_lhs => rw [hsplit]
  rw [iterate_step_xor, hshift]

/-- A word is fed in byte by byte. -/
theorem iterate_step_word (n : ℕ) (x : BitVec 32) :
    (step poly)^[n + 32] x =
      (step poly)^[n + 32] (x &&& 255#32) ^^^ (step poly)^[n + 24] (x >>> 8 &&& 255#32) ^^^
        (step poly)^[n + 16] (x >>> 16 &&& 255#32) ^^^
        (step poly)^[n + 8] (x >>> 16 >>> 8 &&& 255#32) := by
  have hempty : x >>> 16 >>> 8 >>> 8 = 0#32 := by
    apply BitVec.eq_of_toNat_eq
    simp only [BitVec.toNat_ushiftRight, Nat.shiftRight_eq_div_pow, BitVec.toNat_ofNat]
    have := x.isLt
    omega
  have hpair : x >>> 8 >>> 8 = x >>> 16 := by rw [← BitVec.shiftRight_add]
  rw [iterate_step_low (n + 24) x, iterate_step_low (n + 16) (x >>> 8), hpair,
    iterate_step_low (n + 8) (x >>> 16), iterate_step_low n (x >>> 16 >>> 8), hempty, iterate_step_zero]
  simp only [BitVec.xor_zero, BitVec.xor_assoc]

/-! ## Both are the register -/

theorem ofByte_ushiftRight (b : UInt8) : (ofByte b : BitVec 32) >>> 8 = 0#32 := by
  apply BitVec.eq_of_toNat_eq
  have hlt : b.toNat < 2 ^ 8 := b.toNat_lt
  rw [ofByte, BitVec.toNat_ushiftRight, BitVec.toNat_ofNat, Nat.shiftRight_eq_div_pow,
    BitVec.toNat_ofNat]
  omega

theorem xor_and (x y z : BitVec 32) : (x ^^^ y) &&& z = (x &&& z) ^^^ (y &&& z) := by
  apply BitVec.eq_of_getLsbD_eq
  intro i _
  simp only [BitVec.getLsbD_and, BitVec.getLsbD_xor]
  cases x.getLsbD i <;> cases y.getLsbD i <;> cases z.getLsbD i <;> rfl

/-- One byte with a table. -/
theorem look_feed_eq {table : List ℕ} (h : table = images 8) (crc : BitVec 32) (b : UInt8) :
    look table (crc ^^^ ofByte b) ^^^ crc >>> 8 = feed poly crc b := by
  have hshift : (crc ^^^ ofByte b) >>> 8 = crc >>> 8 := by
    rw [BitVec.ushiftRight_xor_distrib, ofByte_ushiftRight, BitVec.xor_zero]
  have hlow := iterate_step_low 0 (crc ^^^ ofByte b)
  rw [hshift] at hlow
  rw [look_eq h, feed]
  exact hlow.symm

/-- A zero byte with a table. -/
theorem look_feed_zero_eq {table : List ℕ} (h : table = images 8) (crc : BitVec 32) :
    look table crc ^^^ crc >>> 8 = feed poly crc 0 := by
  have hzero : (ofByte 0 : BitVec 32) = 0#32 := rfl
  have hfeed := look_feed_eq h crc 0
  rwa [hzero, BitVec.xor_zero] at hfeed

theorem feedAll_replicate (n : ℕ) (crc : BitVec 32) :
    feedAll poly crc (List.replicate n 0) = (fun crc ↦ feed poly crc 0)^[n] crc := by
  induction n generalizing crc with
  | zero => rfl
  | succ n ih => rw [List.replicate_succ, feedAll_cons, ih, Function.iterate_succ_apply]

/-- **The baseline** is the register. -/
theorem intelBaseline_eq (crc : BitVec 32) (data : Data) :
    intelBaseline crc data = feedAll poly crc data.bytes := by
  cases data with
  | null length =>
    have hstep : (fun crc : BitVec 32 ↦ crc >>> 8 ^^^ look tableIscsiBase crc) =
        fun crc ↦ feed poly crc 0 := by
      funext crc
      rw [BitVec.xor_comm, look_feed_zero_eq tables_eq.base]
    rw [intelBaseline, hstep, Data.bytes, feedAll_replicate]
  | «at» address bytes =>
    have hstep : (fun (crc : BitVec 32) b ↦
        crc >>> 8 ^^^ look tableIscsiBase (crc &&& 255#32 ^^^ ofByte b)) = feed poly := by
      funext crc b
      have hlook : look tableIscsiBase (crc &&& 255#32 ^^^ ofByte b) =
          look tableIscsiBase (crc ^^^ ofByte b) := by
        rw [look_eq tables_eq.base, look_eq tables_eq.base, xor_and, xor_and, BitVec.and_assoc, BitVec.and_self]
      rw [hlook, BitVec.xor_comm, look_feed_eq tables_eq.base]
    rw [intelBaseline, hstep, Data.bytes, feedAll]

theorem byteLoop_eq (crc : BitVec 32) (bytes : Bytes) : byteLoop crc bytes = feedAll poly crc bytes := by
  have hstep : (fun (crc : BitVec 32) b ↦ look tableil8O32 (crc ^^^ ofByte b) ^^^ crc >>> 8) =
      feed poly := by
    funext crc b
    exact look_feed_eq tables_eq.o32 crc b
  rw [byteLoop, hstep, feedAll]

theorem firstHalf_eq (crc : BitVec 32) : firstHalf crc = (step poly)^[64] crc := by
  rw [firstHalf, look_eq tables_eq.o88, look_eq tables_eq.o80, look_eq tables_eq.o72, look_eq tables_eq.o64]
  exact (iterate_step_word 32 crc).symm

theorem secondHalf_eq (crc word : BitVec 32) :
    secondHalf crc word = crc ^^^ (step poly)^[32] word := by
  have hword := iterate_step_word 0 word
  rw [secondHalf, look_eq tables_eq.o56, look_eq tables_eq.o48, look_eq tables_eq.o40, look_eq tables_eq.o32]
  simp only [Nat.zero_add] at hword
  rw [hword]
  simp only [BitVec.xor_assoc]

/-- A group of eight bytes. -/
theorem group_eq (crc : BitVec 32) (lo hi : Bytes) (hlo : lo.length = 4) (hhi : hi.length = 4) :
    secondHalf (firstHalf (crc ^^^ load lo)) (load hi) = feedAll poly crc (lo ++ hi) := by
  rw [feedAll_append, feedAll_eq_load poly crc (by rw [hlo]), feedAll_eq_load poly _ (by rw [hhi]), hlo,
    hhi, iterate_step_xor, ← Function.iterate_add_apply, secondHalf_eq, firstHalf_eq]

theorem groupLoop_eq (n : ℕ) (crc : BitVec 32) (bytes : Bytes) (h : n * 8 ≤ bytes.length) :
    groupLoop n crc bytes = feedAll poly crc (bytes.take (n * 8)) := by
  induction n generalizing crc bytes with
  | zero => rw [groupLoop, Nat.zero_mul, List.take_zero, feedAll_nil]
  | succ n ih =>
    have hlo : (bytes.take 4).length = 4 := by
      rw [List.length_take]
      omega
    have hhi : ((bytes.drop 4).take 4).length = 4 := by
      rw [List.length_take, List.length_drop]
      omega
    have hsplit : bytes.take ((n + 1) * 8) =
        bytes.take 4 ++ (bytes.drop 4).take 4 ++ (bytes.drop 8).take (n * 8) := by
      rw [show (n + 1) * 8 = 4 + 4 + n * 8 by omega, List.take_add, List.take_add]
    rw [groupLoop, group_eq crc _ _ hlo hhi, ih _ _ (by rw [List.length_drop]; omega), hsplit,
      ← feedAll_append]

/-- `sctp_crc32c_sb8_64_bit`, for any alignment. -/
theorem sb8_eq (crc : BitVec 32) (bytes : Bytes) (offset : ℕ) :
    sb8 crc bytes offset = feedAll poly crc bytes := by
  have hinit : initBytes bytes.length offset ≤ bytes.length := Nat.min_le_right ..
  generalize hi : initBytes bytes.length offset = init at hinit
  have hgroups := Nat.div_mul_le_self (bytes.length - init) 8
  have hsplit : bytes = bytes.take init ++ ((bytes.drop init).take ((bytes.length - init) / 8 * 8) ++
      bytes.drop (init + (bytes.length - init) / 8 * 8)) := by
    rw [← List.drop_drop, List.take_append_drop, List.take_append_drop]
  rw [sb8, hi, byteLoop_eq, byteLoop_eq, groupLoop_eq _ _ _ (by rwa [List.length_drop]),
    ← feedAll_append, ← feedAll_append, ← hsplit]

/-- `sctp_crc32c_sb8_64_bit_zero`. -/
theorem sb8Zero_eq (crc : BitVec 32) (length offset : ℕ) :
    sb8Zero crc length offset = feedAll poly crc (List.replicate length 0) := by
  have hinit : initBytes length offset ≤ length := Nat.min_le_right ..
  generalize hi : initBytes length offset = init at hinit
  have hgroups := Nat.div_mul_le_self (length - init) 8
  generalize hg : (length - init) / 8 = groups at hgroups
  have hbyte : (fun crc : BitVec 32 ↦ look tableil8O32 crc ^^^ crc >>> 8) =
      fun crc ↦ feed poly crc 0 := funext (look_feed_zero_eq tables_eq.o32)
  have hgroup : (fun crc ↦ secondHalf (firstHalf crc) 0#32) = (fun crc ↦ feed poly crc 0)^[8] := by
    funext crc
    have hzero : (load [0, 0, 0, 0] : BitVec 32) = 0#32 := rfl
    have hword := group_eq crc [0, 0, 0, 0] [0, 0, 0, 0] rfl rfl
    rw [hzero, BitVec.xor_zero] at hword
    rw [hword, ← feedAll_replicate]
    rfl
  rw [sb8Zero, hi, hg, hbyte, hgroup, feedAll_replicate, ← Function.iterate_mul, ← Function.iterate_add_apply,
    ← Function.iterate_add_apply]
  congr 1
  omega

/-- **Slicing by eight** is the register. -/
theorem sctp_eq (crc : BitVec 32) (data : Data) : sctp crc data = feedAll poly crc data.bytes := by
  cases data with
  | null length =>
    rw [sctp, Data.bytes]
    split_ifs with hzero
    · rw [hzero, List.replicate_zero, feedAll_nil]
    · exact sb8Zero_eq crc length 0
  | «at» address bytes =>
    rw [sctp, Data.bytes]
    split_ifs with hzero
    · rw [List.eq_nil_of_length_eq_zero hzero, feedAll_nil]
    · exact sb8_eq crc bytes _

/-! ## Messages

The checksum of a message is that of its header, and those of its sections, in the order in which
they stand. -/

/-- Where one side keeps a message: the header without its own checksum, and three lists. -/
structure Parts where
  heap : Heap := []
  headerAddress : ℕ := 0
  header : Bytes := []
  payload : BufferList := {}
  middle : BufferList := {}
  data : BufferList := {}

namespace Parts

/-- `calc_header_crc`. -/
def calcHeaderCrc (func : Func) (m : Parts) : BitVec 32 := func 0 (.at m.headerAddress m.header)

/-- `calc_front_crc`: the front and the middle. -/
def calcFrontCrc (func : Func) (m : Parts) : BitVec 32 × BitVec 32 :=
  (m.payload.crc32c func m.heap 0, m.middle.crc32c func m.heap 0)

/-- `calc_data_crc`. -/
def calcDataCrc (func : Func) (m : Parts) : BitVec 32 := m.data.crc32c func m.heap 0

/-- The bytes of a message. -/
def bytes (m : Parts) : Bytes × Bytes × Bytes × Bytes :=
  (m.header, m.payload.contents m.heap, m.middle.contents m.heap, m.data.contents m.heap)

/-- All the checksums of a message. -/
def checksums (func : Func) (m : Parts) : BitVec 32 × (BitVec 32 × BitVec 32) × BitVec 32 :=
  (m.calcHeaderCrc func, m.calcFrontCrc func, m.calcDataCrc func)

end Parts

variable {func fast : Func}

/-- The checksum of a list is the register fed with its contents. -/
theorem crc32c_eq (hfunc : ∀ crc data, func crc data = feedAll poly crc data.bytes) (h : Heap)
    (crc : BitVec 32) (l : BufferList) : l.crc32c func h crc = feedAll poly crc (l.contents h) := by
  have hsegment (crc : BitVec 32) (p : Ptr) :
      (if p.len = 0 then crc else func crc (.at (p.address h) (p.bytes h))) =
        feedAll poly crc (p.bytes h) := by
    split_ifs with hzero
    · have hnil : p.bytes h = [] := by
        rw [Ptr.bytes, hzero]
        cases p.raw <;> rfl
      rw [hnil, feedAll_nil]
    · exact hfunc crc _
  simp only [BufferList.crc32c, BufferList.contents, hsegment]
  induction l.buffers generalizing crc with
  | nil => rfl
  | cons p ps ih => rw [List.foldl_cons, ih, List.flatMap_cons, feedAll_append]

theorem chooseCrc32_eq (hfast : ∀ crc data, fast crc data = intelBaseline crc data)
    (sse42 fastExists : Bool) (crc : BitVec 32) (data : Data) :
    chooseCrc32 fast sse42 fastExists crc data = feedAll poly crc data.bytes := by
  rw [chooseCrc32]
  split_ifs
  · rw [hfast, intelBaseline_eq]
  · exact sctp_eq crc data

theorem checksums_eq (hfunc : ∀ crc data, func crc data = feedAll poly crc data.bytes) (m : Parts) :
    m.checksums func = (feedAll poly 0 m.bytes.1, (feedAll poly 0 m.bytes.2.1,
      feedAll poly 0 m.bytes.2.2.1), feedAll poly 0 m.bytes.2.2.2) := by
  simp only [Parts.checksums, Parts.calcHeaderCrc, Parts.calcFrontCrc, Parts.calcDataCrc, hfunc,
    crc32c_eq hfunc, Parts.bytes, Data.bytes]

/-- **One checksum for all layouts.** Slicing by eight over the segments of a list, wherever they lie, is
the baseline over its contents; `NULL` stands for zeros; and two sides that hold the same bytes compute
the same checksums, whichever routine each of them has chosen. -/
theorem checksum_of_contents (hfast : ∀ crc data, fast crc data = intelBaseline crc data) :
    (∀ (h : Heap) (crc : BitVec 32) (l : BufferList) (address : ℕ),
      l.crc32c sctp h crc = intelBaseline crc (.at address (l.contents h))) ∧
    (∀ (crc : BitVec 32) (length address : ℕ),
      sctp crc (.null length) = intelBaseline crc (.at address (List.replicate length 0))) ∧
    ∀ (sse42 sse42' fastExists fastExists' : Bool) (m m' : Parts), m.bytes = m'.bytes →
      m.checksums (chooseCrc32 fast sse42 fastExists) =
        m'.checksums (chooseCrc32 fast sse42' fastExists') := by
  refine ⟨fun h crc l address ↦ ?_, fun crc length address ↦ ?_, fun _ _ _ _ m m' hbytes ↦ ?_⟩
  · rw [crc32c_eq sctp_eq, intelBaseline_eq, Data.bytes]
  · rw [sctp_eq, intelBaseline_eq, Data.bytes, Data.bytes]
  · rw [checksums_eq (chooseCrc32_eq hfast _ _), checksums_eq (chooseCrc32_eq hfast _ _), hbytes]

/-- The sender has `"abc"` in one segment at an odd address and the assembler routine, the receiver has
two segments and no such routine. -/
theorem checksum_of_contents_abc :
    Parts.checksums (chooseCrc32 intelBaseline true true)
        { heap := [{ data := 4097, bytes := [97, 98, 99] }]
          data := { buffers := [{ raw := some 0, len := 3 }], len := 3 } } =
      Parts.checksums (chooseCrc32 intelBaseline false true)
        { heap := [{ data := 8192, bytes := [0, 97] }, { data := 12290, bytes := [98, 99] }]
          data := { buffers := [{ raw := some 0, off := 1, len := 1 }, { raw := some 1, len := 2 }]
                    len := 3 } } :=
  (checksum_of_contents fun _ _ ↦ rfl).2.2 true false true true _ _ rfl

end Checksum

end AsyncMessenger

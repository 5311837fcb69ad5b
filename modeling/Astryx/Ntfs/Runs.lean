import Astryx.Lib.Bytes

/-!
# Runs of clusters

A non-resident attribute of NTFS lies in runs of clusters. Its run list gives the length of each run
and, unless the run is sparse, the signed distance of its first cluster (LCN) from that of the run
before. `parse_attributes` decodes it, with LCN 0 for a sparse run, and `read_attribute_range` takes
every run at LCN 0 for a sparse one and does not look at `initialized_size`, from which on an
attribute is zero. `load_mft_record` takes the MFT to be contiguous. The device reads without
errors.

## Main results

* `readAttributeRange_eq_iff` — when a read follows the attribute
* `loadMftRecord_eq_iff` — when a record is read from where the run list of the MFT has it
-/

namespace Astryx.Ntfs

open Bytes List

/-! ## Decoding -/

/-- `read_unsigned_le` of a slice. -/
def readUnsignedLe (bytes : List UInt8) : ℕ :=
  if 8 < bytes.length then 0 else bytes.foldr (fun b v => b.toNat + 256 * v) 0

/-- `read_signed_le` of a slice. -/
def readSignedLe (bytes : List UInt8) : ℤ := Int.bmod (readUnsignedLe bytes) (256 ^ bytes.length)

/-- The number of the given size at an offset. -/
def readLe (size : ℕ) (buf : List UInt8) (off : ℕ) : ℕ := readUnsignedLe ((buf.drop off).take size)

/-- `read_u16_le` -/
def readU16Le : List UInt8 → ℕ → ℕ := readLe 2

/-- `read_u32_le` -/
def readU32Le : List UInt8 → ℕ → ℕ := readLe 4

/-- `read_u64_le` -/
def readU64Le : List UInt8 → ℕ → ℕ := readLe 8

/-- The LCN is a number in the code, and none for a sparse run in the run list. -/
structure DataRun (Lcn : Type) where
  lcn : Lcn
  length : ℕ
deriving DecidableEq

/-- The loop of `decode_data_runs`. Every round takes bytes, so that their number is enough fuel. -/
def decodeRuns : ℕ → ℤ → List UInt8 → List (DataRun ℕ)
  | fuel + 1, prevLcn, header :: rest =>
    let lengthSize := header.toNat % 16
    let offsetSize := header.toNat / 16
    if header = 0 ∨ lengthSize = 0 ∨ rest.length < lengthSize + offsetSize then []
    else
      let runLength := readUnsignedLe (rest.take lengthSize)
      let rest := rest.drop lengthSize
      if offsetSize = 0 then ⟨0, runLength⟩ :: decodeRuns fuel prevLcn rest
      else
        let lcn := Int.bmod (prevLcn + readSignedLe (rest.take offsetSize)) (2 ^ 64)
        if lcn < 0 then [] else ⟨lcn.toNat, runLength⟩ :: decodeRuns fuel lcn (rest.drop offsetSize)
  | _, _, _ => []

/-- The runs of a list. -/
def decodeDataRuns (runData : List UInt8) : List (DataRun ℕ) := decodeRuns runData.length 0 runData

/-- The fields that a read looks at, and the initialized size. -/
structure NtfsAttribute where
  nonResident : Bool
  residentData : Option (List UInt8)
  dataRuns : Option (List (DataRun ℕ))
  dataSize : ℕ
  initializedSize : ℕ
deriving DecidableEq

/-- The body of the loop of `parse_attributes`; nothing if the header does not fit the record. -/
def parseAttribute (record : List UInt8) (off : ℕ) : Option NtfsAttribute :=
  if record[off + 8]?.getD 0 ≠ 0 then
    if record.length < off + 64 then none
    else
      let runStart := off + readU16Le record (off + 32)
      let runEnd := off + readU32Le record (off + 4)
      let runs := if runStart < runEnd ∧ runStart < record.length
        then decodeDataRuns ((record.take (min runEnd record.length)).drop runStart) else []
      some ⟨true, none, some runs, readU64Le record (off + 48), readU64Le record (off + 56)⟩
  else if record.length < off + 24 then none
  else
    let valueLength := readU32Le record (off + 16)
    let dataStart := off + readU16Le record (off + 20)
    let data := if dataStart < record.length ∧ dataStart + valueLength ≤ record.length
      then (record.drop dataStart).take valueLength else []
    some ⟨false, some data, none, valueLength, valueLength⟩

/-- Where the loop of `parse_attributes` finds attributes. Every round goes on by 16 bytes or
more. -/
def attributeOffsets (record : List UInt8) : ℕ → ℕ → List ℕ
  | fuel + 1, off =>
    let attrType := readU32Le record off
    let attrLength := readU32Le record (off + 4)
    if record.length < off + 16 ∨ attrType = 0xFFFFFFFF ∨ attrType = 0 ∨ attrLength < 16 ∨
      record.length < off + attrLength then []
    else off :: attributeOffsets record fuel (off + attrLength)
  | 0, _ => []

/-- The attributes of a record. -/
def parseAttributes (record : List UInt8) (firstAttrOffset : ℕ) : List NtfsAttribute :=
  (attributeOffsets record record.length firstAttrOffset).filterMap (parseAttribute record)

/-- The bytes of the device, and what the boot sector says. -/
structure NtfsFs where
  device : ℕ → UInt8
  clusterSize : ℕ
  mftStartLcn : ℕ
  mftRecordSize : ℕ

namespace NtfsFs

/-- What the loop over the runs reads, with `vcn_offset`, `offset + buf_pos` and `remaining`. -/
def walkRuns (fs : NtfsFs) : List (DataRun ℕ) → ℕ → ℕ → ℕ → List UInt8
  | [], _, _, _ => []
  | run :: runs, vcnOffset, pos, remaining =>
    let runBytes := run.length * fs.clusterSize
    if vcnOffset + runBytes ≤ pos then fs.walkRuns runs (vcnOffset + runBytes) pos remaining
    else
      let runStart := pos - vcnOffset
      let chunkSize := min remaining (runBytes - runStart)
      let chunk := if run.lcn = 0 then replicate chunkSize 0
        else slice fs.device (run.lcn * fs.clusterSize + runStart) chunkSize
      if remaining - chunkSize = 0 then chunk
      else chunk ++ fs.walkRuns runs (vcnOffset + runBytes) (pos + chunkSize)
        (remaining - chunkSize)

/-- The bytes that a call with a buffer of `len` bytes puts into it. -/
def readAttributeRange (fs : NtfsFs) (attr : NtfsAttribute) (offset len : ℕ) :
    Option (List UInt8) :=
  let toRead := min len (attr.dataSize - offset)
  if attr.dataSize ≤ offset then some []
  else if attr.nonResident then attr.dataRuns.map fun runs => fs.walkRuns runs 0 offset toRead
  else attr.residentData.map fun data => (data.drop offset).take toRead

end NtfsFs

/-! ## What a run list means -/

/-- Runs, of which some are holes. -/
abbrev Runs := List (DataRun (Option ℕ))

/-- The number that bytes stand for, the least significant first. -/
def unsigned (bytes : List UInt8) : ℕ := Nat.ofDigits 256 (bytes.map UInt8.toNat)

/-- The same in two's complement. -/
def signed (bytes : List UInt8) : ℤ :=
  if 2 * unsigned bytes < 256 ^ bytes.length then unsigned bytes
  else unsigned bytes - (256 ^ bytes.length : ℕ)

/-- The bytes give these runs, where the last LCN before them is `prev`. A run is a byte with the
sizes of two numbers, and the numbers: the length of the run, and how far it is from the one before,
which a sparse run does not have. -/
inductive RunList : ℕ → List UInt8 → Runs → Prop
  | nil (prev : ℕ) : RunList prev [] []
  | stop (prev : ℕ) (rest : List UInt8) : RunList prev (0 :: rest) []
  | sparse {prev : ℕ} {len rest : List UInt8} {runs : Runs} (hlen : len.length ∈ Set.Icc 1 8)
      (hrest : RunList prev rest runs) :
      RunList prev (.ofNat len.length :: (len ++ rest)) (⟨none, unsigned len⟩ :: runs)
  | real {prev lcn : ℕ} {len dist rest : List UInt8} {runs : Runs}
      (hlen : len.length ∈ Set.Icc 1 8) (hdist : dist.length ∈ Set.Icc 1 8)
      (hlcn : (prev : ℤ) + signed dist = lcn) (hlt : lcn < 2 ^ 63) (hrest : RunList lcn rest runs) :
      RunList prev (.ofNat (len.length + 16 * dist.length) :: (len ++ (dist ++ rest)))
        (⟨some lcn, unsigned len⟩ :: runs)

/-- The run list of the attribute at an offset of a record. -/
def runData (record : List UInt8) (off : ℕ) : List UInt8 :=
  (record.take (off + readU32Le record (off + 4))).drop (off + readU16Le record (off + 32))

namespace NtfsFs

/-- The LCN of the run in which a position lies, and the place in the run; none if it is sparse. -/
def locate (fs : NtfsFs) : Runs → ℕ → Option (ℕ × ℕ)
  | [], _ => none
  | run :: runs, p =>
    if p < run.length * fs.clusterSize then run.lcn.map (·, p)
    else fs.locate runs (p - run.length * fs.clusterSize)

/-- Byte `p` of the stream that the runs describe. -/
def streamByte (fs : NtfsFs) (runs : Runs) (p : ℕ) : UInt8 :=
  (fs.locate runs p).elim 0 fun (lcn, k) => fs.device (lcn * fs.clusterSize + k)

/-- Byte `p` of the value of an attribute. -/
def valueByte (fs : NtfsFs) (runs : Runs) (initializedSize p : ℕ) : UInt8 :=
  if initializedSize ≤ p then 0 else fs.streamByte runs p

end NtfsFs

/-- What the code makes of a run. -/
def DataRun.code (run : DataRun (Option ℕ)) : DataRun ℕ := ⟨run.lcn.getD 0, run.length⟩

lemma readUnsignedLe_eq {bytes : List UInt8} (h : bytes.length ≤ 8) :
    readUnsignedLe bytes = unsigned bytes := by
  rw [readUnsignedLe, if_neg h.not_gt, unsigned, Nat.ofDigits_eq_foldr, foldr_map]
  rfl

lemma readSignedLe_eq {bytes : List UInt8} (h : bytes.length ∈ Set.Icc 1 8) :
    readSignedLe bytes = signed bytes := by
  have hlt : unsigned bytes < 256 ^ bytes.length := by
    have hdigits := Nat.ofDigits_lt_base_pow_length (b := 256) (l := bytes.map UInt8.toNat)
      (by decide) (forall_mem_map.mpr fun b _ => b.toNat_lt)
    rwa [length_map] at hdigits
  have heven : 2 ∣ 256 ^ bytes.length := dvd_pow (by decide) (by have := h.1; omega)
  rw [readSignedLe, readUnsignedLe_eq h.2, signed, Int.bmod]
  generalize unsigned bytes = v at hlt
  generalize 256 ^ bytes.length = m at hlt heven
  rw [Int.emod_eq_of_lt (by omega) (by omega)]
  split_ifs <;> omega

/-- One round of the loop, for a run whose distance has `o` bytes. -/
lemma decodeRuns_cons {len tail : List UInt8} {o : ℕ} (hlen : len.length ∈ Set.Icc 1 8) (ho : o ≤ 8)
    (htail : o ≤ tail.length) (fuel : ℕ) (prev : ℤ) :
    decodeRuns (fuel + 1) prev (.ofNat (len.length + 16 * o) :: (len ++ tail)) =
      if o = 0 then ⟨0, unsigned len⟩ :: decodeRuns fuel prev tail
      else
        let lcn := Int.bmod (prev + readSignedLe (tail.take o)) (2 ^ 64)
        if lcn < 0 then [] else ⟨lcn.toNat, unsigned len⟩ :: decodeRuns fuel lcn (tail.drop o) := by
  obtain ⟨hpos, hle⟩ := hlen
  have hheader : (UInt8.ofNat (len.length + 16 * o)).toNat = len.length + 16 * o :=
    UInt8.toNat_ofNat_of_lt' (by show _ < 256; omega)
  have hmore : ¬ (UInt8.ofNat (len.length + 16 * o) = 0 ∨ len.length = 0 ∨
      (len ++ tail).length < len.length + o) := by
    rw [not_or, not_or, length_append]
    refine ⟨fun hzero => ?_, by omega, by omega⟩
    rw [hzero] at hheader
    exact absurd hheader (by simp; omega)
  rw [decodeRuns]
  dsimp only
  rw [hheader, show (len.length + 16 * o) % 16 = len.length by omega,
    show (len.length + 16 * o) / 16 = o by omega, if_neg hmore, take_left, drop_left,
    readUnsignedLe_eq hle]

lemma decodeRuns_eq {prev : ℕ} {bytes : List UInt8} {runs : Runs} (h : RunList prev bytes runs) :
    ∀ {fuel : ℕ}, bytes.length ≤ fuel → decodeRuns fuel prev bytes = runs.map DataRun.code := by
  induction h with
  | nil prev =>
    intro fuel _
    cases fuel <;> rfl
  | stop prev rest =>
    intro fuel hfuel
    obtain ⟨fuel, rfl⟩ := Nat.exists_eq_add_one.mpr (Nat.zero_lt_of_lt hfuel)
    simp [decodeRuns]
  | @sparse prev len rest runs hlen hrest ih =>
    intro fuel hfuel
    rw [length_cons, length_append] at hfuel
    obtain ⟨fuel, rfl⟩ := Nat.exists_eq_add_one.mpr (Nat.zero_lt_of_lt hfuel)
    rw [← Nat.add_zero len.length, ← Nat.mul_zero 16, decodeRuns_cons hlen (by omega) (by omega),
      if_pos rfl, ih (by omega)]
    rfl
  | @real prev lcn len dist rest runs hlen hdist hlcn hlt hrest ih =>
    intro fuel hfuel
    rw [length_cons, length_append, length_append] at hfuel
    obtain ⟨fuel, rfl⟩ := Nat.exists_eq_add_one.mpr (Nat.zero_lt_of_lt hfuel)
    have hbmod : Int.bmod lcn (2 ^ 64) = lcn := Int.bmod_eq_of_le (by omega) (by omega)
    have hpos := hdist.1
    rw [decodeRuns_cons hlen hdist.2 (by simp), if_neg (by omega), take_left, drop_left,
      readSignedLe_eq hdist, hlcn, hbmod]
    dsimp only
    rw [if_neg (by omega), ih (by omega), Int.toNat_natCast]
    rfl

namespace NtfsFs

/-! ## Reads -/

variable {fs : NtfsFs} {run : DataRun (Option ℕ)} {runs : Runs} {start n : ℕ}

/-- What the code reads at a position. -/
def readByte (fs : NtfsFs) (runs : Runs) (p : ℕ) : UInt8 :=
  (fs.locate runs p).elim 0 fun (lcn, k) =>
    if lcn = 0 then 0 else fs.device (lcn * fs.clusterSize + k)

lemma slice_readByte (runs : Runs) (hn : start + n ≤ run.length * fs.clusterSize) :
    slice (fs.readByte (run :: runs)) start n = if run.code.lcn = 0 then replicate n 0
      else slice fs.device (run.code.lcn * fs.clusterSize + start) n := by
  have hin : ∀ k < n, fs.readByte (run :: runs) (start + k) =
      if run.code.lcn = 0 then 0 else fs.device (run.code.lcn * fs.clusterSize + start + k) := by
    intro k hk
    rw [readByte, locate, if_pos (by omega), DataRun.code, add_assoc]
    cases run.lcn <;> rfl
  split
  next hzero =>
    refine eq_replicate_iff.mpr ⟨length_slice .., forall_mem_map.mpr fun k hk => ?_⟩
    rw [hin k (mem_range.mp hk), if_pos hzero]
  next hreal => exact slice_congr fun k hk => (hin k hk).trans (if_neg hreal)

lemma slice_readByte_cons (hstart : run.length * fs.clusterSize ≤ start) :
    slice (fs.readByte (run :: runs)) start n =
      slice (fs.readByte runs) (start - run.length * fs.clusterSize) n :=
  slice_congr fun k _ => by
    rw [readByte, locate, if_neg (by omega), Nat.sub_add_comm hstart, readByte]

/-- What the loop still has to read is that of the runs that are left. -/
lemma walkRuns_eq {vcnOffset pos remaining : ℕ} (hvcn : vcnOffset ≤ pos)
    (htotal : pos + remaining ≤ vcnOffset + (runs.map (·.length)).sum * fs.clusterSize) :
    fs.walkRuns (runs.map DataRun.code) vcnOffset pos remaining =
      slice (fs.readByte runs) (pos - vcnOffset) remaining := by
  induction runs generalizing vcnOffset pos remaining with
  | nil =>
    obtain rfl : remaining = 0 := by rw [map_nil, sum_nil] at htotal; omega
    rfl
  | cons run runs ih =>
    rw [map_cons, sum_cons, add_mul] at htotal
    rw [map_cons, walkRuns]
    dsimp only
    rw [show run.code.length = run.length from rfl]
    split
    next hskip => rw [ih hskip (by omega), slice_readByte_cons (by omega), Nat.sub_sub]
    next hin =>
      set start := pos - vcnOffset
      set chunk := min remaining (run.length * fs.clusterSize - start)
      rw [← slice_readByte runs (by omega)]
      split
      next hlast => rw [show chunk = remaining by omega]
      next hmore =>
        have hsum : remaining = chunk + (remaining - chunk) := by omega
        have hbehind : run.length * fs.clusterSize ≤ start + chunk := by omega
        rw [ih (by omega) (by omega), hsum, slice_add, ← hsum, slice_readByte_cons hbehind]
        congr 2
        omega

/-- The code reads what the attribute holds at a position, unless a byte of the device that is not 0
is taken for sparse or lies behind the initialized size. -/
lemma readByte_eq_valueByte_iff (initializedSize p : ℕ) :
    fs.readByte runs p = fs.valueByte runs initializedSize p ↔
      ∀ lcn k, fs.locate runs p = some (lcn, k) → fs.device (lcn * fs.clusterSize + k) ≠ 0 →
        (lcn ≠ 0 ↔ p < initializedSize) := by
  rw [readByte, valueByte, streamByte]
  cases fs.locate runs p with
  | none => simp
  | some place =>
    obtain ⟨lcn, k⟩ := place
    simp only [Option.elim_some, Option.some.injEq, Prod.mk.injEq, and_imp]
    grind

lemma dataRuns_of_parseAttribute {record : List UInt8} {off : ℕ} {attr : NtfsAttribute}
    (hattr : parseAttribute record off = some attr) (hnon : attr.nonResident = true)
    (hruns : RunList 0 (runData record off) runs) :
    attr.dataRuns = some (runs.map DataRun.code) := by
  have hdecode : decodeDataRuns (runData record off) = runs.map DataRun.code :=
    decodeRuns_eq hruns le_rfl
  rw [parseAttribute] at hattr
  split at hattr
  · split at hattr
    · cases hattr
    cases hattr
    dsimp only
    rw [← hdecode, runData]
    split
    next => rw [← take_eq_take_min]
    next hempty =>
      rw [drop_eq_nil_of_le]
      · rfl
      · rw [length_take]
        omega
  · split at hattr
    · cases hattr
    cases hattr
    cases hnon

/-- **A read follows the attribute** exactly if, of the bytes of the device at the positions read,
those that are not 0 are in a run at LCN 0 just when they are past the initialized size. -/
theorem readAttributeRange_eq_iff (fs : NtfsFs) (record : List UInt8) (first : ℕ) :
    ∀ attr ∈ parseAttributes record first, attr.nonResident = true →
      ∃ off ∈ attributeOffsets record record.length first, parseAttribute record off = some attr ∧
        ∀ runs, RunList 0 (runData record off) runs →
          attr.dataSize ≤ (runs.map (·.length)).sum * fs.clusterSize → ∀ offset len,
            (fs.readAttributeRange attr offset len = some (slice
                (fs.valueByte runs attr.initializedSize) offset (min len (attr.dataSize - offset)))
              ↔ ∀ p, offset ≤ p → p < min (offset + len) attr.dataSize →
                ∀ lcn k, fs.locate runs p = some (lcn, k) →
                  fs.device (lcn * fs.clusterSize + k) ≠ 0 →
                    (lcn ≠ 0 ↔ p < attr.initializedSize)) := by
  intro attr hattr hnon
  obtain ⟨off, hoff, hattr⟩ := mem_filterMap.mp hattr
  refine ⟨off, hoff, hattr, fun runs hruns hsize offset len => ?_⟩
  rw [readAttributeRange]
  split
  next hpast =>
    rw [show min len (attr.dataSize - offset) = 0 by omega]
    exact iff_of_true rfl fun p _ _ => by omega
  next hin =>
    rw [dataRuns_of_parseAttribute hattr hnon hruns, Option.map_some,
      walkRuns_eq (Nat.zero_le _) (by omega), Nat.sub_zero, Option.some.injEq, slice_eq_iff]
    simp only [readByte_eq_valueByte_iff]
    rw [show offset + min len (attr.dataSize - offset) = min (offset + len) attr.dataSize by omega]

/-- Cluster `k` of 512 bytes is filled with `k + 1`. -/
def numbered : NtfsFs := ⟨fun p => .ofNat (p / 512 + 1), 512, 8, 1024⟩

/-- A record with one attribute, given its two sizes and its run list, of 8 bytes each. -/
def oneAttribute (dataSize initializedSize runs : List UInt8) : List UInt8 :=
  [0x80, 0, 0, 0, 72, 0, 0, 0, 1] ++ replicate 23 0 ++ [64] ++ replicate 15 0 ++ dataSize ++
    initializedSize ++ runs

/-- The last byte of a cluster and the first one of the next. -/
theorem readAttributeRange_eq_of_run :
    ∃ attr ∈ parseAttributes (oneAttribute [88, 2, 0, 0, 0, 0, 0, 0] [88, 2, 0, 0, 0, 0, 0, 0]
        [0x11, 2, 8, 0, 0, 0, 0, 0]) 0, attr.initializedSize = 600 ∧
      numbered.readAttributeRange attr 511 2 =
        some (slice (numbered.valueByte [⟨some 8, 2⟩] 600) 511 2) := by
  have hmem : (⟨true, none, some [⟨8, 2⟩], 600, 600⟩ : NtfsAttribute) ∈ parseAttributes
      (oneAttribute [88, 2, 0, 0, 0, 0, 0, 0] [88, 2, 0, 0, 0, 0, 0, 0]
        [0x11, 2, 8, 0, 0, 0, 0, 0]) 0 := by decide
  obtain ⟨off, hoff, -, hread⟩ := readAttributeRange_eq_iff numbered _ 0 _ hmem rfl
  obtain rfl : off = 0 := mem_singleton.mp hoff
  refine ⟨_, hmem, rfl, (hread _ (@RunList.real 0 8 [2] [8] [0, 0, 0, 0, 0] [] (by decide)
    (by decide) rfl (by decide) (.stop 8 _)) (by decide) 511 2).mpr fun p _ hp lcn k hplace _ => ?_⟩
  simp only [locate, Option.map_some, Option.ite_none_right_eq_some, Option.some.injEq,
    Prod.mk.injEq] at hplace
  exact iff_of_true (by omega) (lt_of_lt_of_le hp (by decide))

/-- A run at LCN 0, and a byte of a run at LCN 8 past the initialized size. -/
theorem readAttributeRange_unlike :
    (∃ attr ∈ parseAttributes (oneAttribute [1, 0, 0, 0, 0, 0, 0, 0] [1, 0, 0, 0, 0, 0, 0, 0]
        [0x11, 1, 0, 0, 0, 0, 0, 0]) 0, numbered.readAttributeRange attr 0 1 = some [0] ∧
      numbered.valueByte [⟨some 0, 1⟩] attr.initializedSize 0 = 1) ∧
    ∃ attr ∈ parseAttributes (oneAttribute [1, 0, 0, 0, 0, 0, 0, 0] [0, 0, 0, 0, 0, 0, 0, 0]
        [0x11, 1, 8, 0, 0, 0, 0, 0]) 0, numbered.readAttributeRange attr 0 1 = some [9] ∧
      numbered.valueByte [⟨some 8, 1⟩] attr.initializedSize 0 = 0 := by
  decide

end NtfsFs

end Astryx.Ntfs

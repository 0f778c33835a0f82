import Mathlib.Algebra.BigOperators.Group.List.Basic
import Mathlib.Data.List.Forall2
import Idhan.Lib.Codec
import Idhan.Lib.Overwrite

/-!
# The raster of a PSD file

`premade/psd/psd.cpp`: the image of a PSD file has a row for each line of each channel.  The rows
are packed one by one: a packet is a header byte with a run of bytes that stand for themselves, or
with one byte that is repeated, and a header of 128 is skipped.  A table of the lengths of the
packed rows precedes them.

* `unpackScanline_of_packs`: every packing of a row is unpacked.
* `unpackRaster_packed`: so is a raster, and the offset ends where the data ends.
-/

namespace Idhan.Psd

open Overwrite List

/-- `readUint16BE` and `readUint32BE` at an offset. -/
def readUint (width : ℕ) (data : List UInt8) (offset : ℕ) : ℕ :=
  beValue ((data.drop offset).take width)

/-! ## The header -/

structure PSDHeader where
  channels : ℕ
  height : ℕ
  width : ℕ
  depth : ℕ
  colorMode : ℕ

def maxDimension : ℕ := 30000

def maxChannels : ℕ := 56

/-- The dimensions that `parsePSDHeader` accepts. -/
def PSDHeader.Within (header : PSDHeader) : Prop :=
  header.width ≠ 0 ∧ header.height ≠ 0 ∧ header.width ≤ maxDimension ∧
    header.height ≤ maxDimension ∧
    header.channels ≠ 0 ∧ header.channels ≤ maxChannels

/-! ## Rows -/

/-- `unpackScanline`: the bytes that are written for some input into an output with room for
`room`. -/
def unpackScanline (room : ℕ) : List UInt8 → List UInt8
  | [] => []
  | header :: input =>
    if room = 0 then []
    else if 128 < header then
      match input with
      | [] => []
      | value :: input =>
        List.replicate (min (257 - header.toNat) room) value ++
          unpackScanline (room - min (257 - header.toNat) room) input
    else if header < 128 then
      let count := min (min (header.toNat + 1) room) input.length
      input.take count ++ unpackScanline (room - count) (input.drop count)
    else unpackScanline room input
termination_by input => input.length

/-- The bytes are a packing of the row. -/
inductive Packs : List UInt8 → List UInt8 → Prop
  | nil : Packs [] []
  | skip {code row : List UInt8} : Packs code row → Packs (128 :: code) row
  | literal {code row : List UInt8} (bytes : List UInt8) : bytes ≠ [] → bytes.length ≤ 128 →
      Packs code row →
      Packs (UInt8.ofNat (bytes.length - 1) :: (bytes ++ code)) (bytes ++ row)
  | repeated {code row : List UInt8} (count : ℕ) (value : UInt8) :
      2 ≤ count → count ≤ 128 → Packs code row →
      Packs (UInt8.ofNat (257 - count) :: value :: code) (List.replicate count value ++ row)

theorem toNat_header {n : ℕ} (h : n ≤ 255) : (UInt8.ofNat n).toNat = n :=
  UInt8.toNat_ofNat_of_lt' (Nat.lt_succ_of_le h)

/-- **Every packing of a row is unpacked.** -/
theorem unpackScanline_of_packs {code row : List UInt8} (h : Packs code row) :
    unpackScanline row.length code = row := by
  induction h with
  | nil => rw [unpackScanline]
  | @skip code row _ ih =>
    unfold unpackScanline
    rw [if_neg (UInt8.lt_irrefl 128), if_neg (UInt8.lt_irrefl 128), ih, ite_eq_right_iff]
    exact fun hroom => (length_eq_zero_iff.1 hroom).symm
  | @literal code row bytes hne hlen _ ih =>
    have hpos := length_pos_iff.2 hne
    have hheader := @toNat_header (bytes.length - 1) (by omega)
    have hcount : min (min (bytes.length - 1 + 1) (bytes ++ row).length) (bytes ++ code).length =
        bytes.length := by
      simp only [length_append]
      omega
    unfold unpackScanline
    simp only [append_eq_nil_iff, length_eq_zero_iff, hne, false_and, if_false,
      UInt8.lt_iff_toNat_lt, hheader, hcount, UInt8.reduceToNat]
    rw [if_neg (by omega), if_pos (by omega), take_left, drop_left, length_append,
      Nat.add_sub_cancel_left, ih]
  | @repeated code row count value hmin hmax _ ih =>
    have hheader := @toNat_header (257 - count) (by omega)
    have hroom : (List.replicate count value ++ row).length = count + row.length := by
      rw [length_append, length_replicate]
    unfold unpackScanline
    simp only [UInt8.lt_iff_toNat_lt, hheader, hroom, UInt8.reduceToNat]
    rw [if_neg (by omega), if_pos (by omega), show min (257 - (257 - count)) (count + row.length) =
      count by omega, Nat.add_sub_cancel_left, ih]

/-! ## Rasters -/

/-- The rows of a raster: the planes and the offset after the rows with these lengths. -/
def unpackRows (buffer : List UInt8) (rowBytes : ℕ) : List ℕ → ℕ → ℕ → List UInt8 → List UInt8 × ℕ
  | [], offset, _, planarData => (planarData, offset)
  | length :: lengths, offset, outputOffset, planarData =>
    if buffer.length < offset + length then (planarData, offset)
    else
      unpackRows buffer rowBytes lengths (offset + length) (outputOffset + rowBytes)
        (overwrite planarData outputOffset
          (unpackScanline rowBytes ((buffer.drop offset).take length)))

/-- `unpackRaster`: the planes and the offset.  Products of the dimensions have 32 bits; sizes are
far below 64 bits. -/
def unpackRaster (buffer : List UInt8) (offset width height channels bytesPerSample : ℕ) :
    List UInt8 × ℕ :=
  let scanlineCountsSize := height * channels * 2 % 2 ^ 32
  if buffer.length < offset + scanlineCountsSize then ([], offset)
  else
    let scanlineLengths := (List.range (height * channels % 2 ^ 32)).map fun i => readUint 2 buffer
      (offset + i * 2)
    unpackRows buffer (width * bytesPerSample) scanlineLengths (offset + scanlineCountsSize) 0
      (List.replicate (width * height * channels * bytesPerSample) 0)

/-- The packed rows are unpacked one after the other. -/
theorem unpackRows_packed {rowBytes : ℕ} {codes rows : List (List UInt8)}
    (h : List.Forall₂ Packs codes rows) (hrows : ∀ row ∈ rows, row.length = rowBytes)
    (front out : List UInt8) (cells : List UInt8) :
    unpackRows (front ++ codes.flatten) rowBytes (codes.map List.length) front.length out.length
      (overwrite cells 0 out) =
      (overwrite cells 0 (out ++ rows.flatten), (front ++ codes.flatten).length) := by
  induction h generalizing front out with
  | nil => simp [unpackRows]
  | @cons code row codes rows hcode _ ih =>
    obtain ⟨hrow, hrows⟩ := forall_mem_cons.1 hrows
    have hnext := ih hrows (front ++ code) (out ++ row)
    rw [map_cons, unpackRows, if_neg (by simp), drop_left, flatten_cons, take_left, ← hrow,
      unpackScanline_of_packs hcode]
    have hwrite := overwrite_overwrite cells 0 out row
    rw [Nat.zero_add] at hwrite
    rw [hwrite, ← length_append, ← length_append, ← append_assoc, hrow, hnext, flatten_cons,
      append_assoc]

/-- The table of the lengths is read back. -/
theorem read_table {lengths : List ℕ} (h : ∀ length ∈ lengths, length < 2 ^ 16)
    (front rest : List UInt8) : ((List.range lengths.length).map fun i =>
      readUint 2 (front ++ (lengths.flatMap (beBytes 2) ++ rest)) (front.length + i * 2)) =
      lengths := by
  induction lengths generalizing front with
  | nil => rfl
  | cons length lengths ih =>
    obtain ⟨hlength, hlengths⟩ := forall_mem_cons.1 h
    have hnext := ih hlengths (front ++ beBytes 2 length)
    rw [length_cons, range_succ_eq_map, map_cons, map_map, flatMap_cons]
    congr 1
    · rw [readUint, Nat.zero_mul, Nat.add_zero, drop_left, append_assoc,
        take_left' (length_beBytes ..), beValue_beBytes hlength]
    · refine (map_congr_left fun i _ => ?_).trans hnext
      simp only [Function.comp_apply, append_assoc, length_append, length_beBytes, Nat.succ_mul]
      congr 1
      omega

/-- **A packed raster is unpacked**, whatever the packing of its rows, and the offset ends where the
data ends. -/
theorem unpackRaster_packed {header : PSDHeader} (hwithin : header.Within) {bytesPerSample : ℕ}
    {codes rows : List (List UInt8)} (hpacks : List.Forall₂ Packs codes rows)
    (hcount : rows.length = header.height * header.channels)
    (hrows : ∀ row ∈ rows, row.length = header.width * bytesPerSample)
    (hcodes : ∀ code ∈ codes, code.length ≤ 65535) (front : List UInt8) :
    unpackRaster (front ++ ((codes.map List.length).flatMap (beBytes 2) ++ codes.flatten))
      front.length header.width header.height
        header.channels bytesPerSample =
      (rows.flatten,
        (front ++ ((codes.map List.length).flatMap (beBytes 2) ++ codes.flatten)).length) := by
  obtain ⟨_, _, _, hheight, _, hchannels⟩ := hwithin
  have hmul := Nat.mul_le_mul hheight hchannels
  have hlength : (codes.map List.length).length = header.height * header.channels := by
    rw [length_map, hpacks.length_eq, hcount]
  have htable : ((codes.map List.length).flatMap (beBytes 2)).length =
      header.height * header.channels * 2 := by
    rw [length_flatMap, map_congr_left fun n _ => length_beBytes 2 n, map_const', sum_replicate,
      hlength]
    rfl
  have hsize : rows.flatten.length = header.width * header.height * header.channels *
      bytesPerSample := by
    rw [length_flatten, map_congr_left hrows, map_const', sum_replicate, hcount, nsmul_eq_mul,
      Nat.cast_id]
    ring
  have hread := read_table (forall_mem_map.2 fun code hcode => Nat.lt_succ_of_le
    (hcodes code hcode)) front codes.flatten
  have hunpacked := unpackRows_packed hpacks hrows
    (front ++ (codes.map List.length).flatMap (beBytes 2)) []
    (List.replicate (header.width * header.height * header.channels * bytesPerSample) 0)
  rw [hlength] at hread
  simp only [maxDimension, maxChannels] at hmul
  rw [unpackRaster, Nat.mod_eq_of_lt (by omega), Nat.mod_eq_of_lt (by omega),
    if_neg (by simp [htable]), hread, ← append_assoc, ← htable, ← length_append]
  refine hunpacked.trans (Prod.ext ?_ rfl)
  rw [nil_append]
  exact overwrite_all (by rw [hsize, length_replicate])

theorem unpackRaster_packed_row :
    unpackRaster [0, 5, 255, 7, 128, 0, 9] 0 3 1 1 1 = ([7, 7, 9], 7) := by
  have hcode : Packs [255, 7, 128, 0, 9] [7, 7, 9] :=
    .repeated 2 7 (by decide) (by decide) (.skip (.literal [9] (by decide) (by decide) .nil))
  exact @unpackRaster_packed ⟨1, 1, 3, 8, 3⟩ (by simp [PSDHeader.Within, maxDimension, maxChannels])
    1 _ _ (.cons hcode .nil) rfl (by decide) (by decide) []

end Idhan.Psd

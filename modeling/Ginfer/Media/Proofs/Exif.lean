/-
The orientation parser is total on every upload, and finds the entry of
every well-formed picture.

# The two halves

Safety is one fact per reader — it returns a value whatever the bytes —
and an induction over the walk: `Sound` holds of every branch.

The other half reads what was written: `Holds bytes offset part` says
that `part` stands at `offset`, a reader at a field that stands there
returns it (`u16_holds`, `u32_holds`), and a field that stands in a part
stands in the bytes (`Holds.right`). The walk over the segments and the
scan of the entries are then inductions over the lists they were written
from.
-/
import Ginfer.Media.Exif

namespace Ginfer.Media.Exif

open Option
open List hiding beq_eq_decide getElem?_eq_some_iff

-- ============ total reads

/-- A result in 1..8: no read was outside the span. -/
def Sound (result : Option Nat) : Prop :=
  ∃ v, result = some v ∧ 1 ≤ v ∧ v ≤ 8

section

variable {bytes : List UInt8} {offset : Nat}

theorem sound_one : Sound (pure 1) :=
  ⟨1, rfl, by decide, by decide⟩

theorem byteAt_total (h : offset < bytes.length) :
    ∃ v, byteAt bytes offset = some v :=
  ⟨_, by rw [byteAt, getElem?_eq_getElem h]; rfl⟩

theorem be16_total (h : offset + 1 < bytes.length) :
    ∃ v, be16 bytes offset = some v := by
  obtain ⟨a, ha⟩ := byteAt_total (Nat.lt_of_succ_lt h)
  obtain ⟨b, hb⟩ := byteAt_total h
  exact ⟨_, by simp only [be16, ha, hb]; rfl⟩

theorem u16_total (bytes : List UInt8) (offset : Nat) (little : Bool) :
    ∃ v, u16 bytes little offset = some v := by
  by_cases h : offset + 2 > bytes.length
  · exact ⟨0, by rw [u16, if_pos h]; rfl⟩
  · obtain ⟨a, ha⟩ := byteAt_total (show offset < bytes.length by omega)
    obtain ⟨b, hb⟩ := byteAt_total (show offset + 1 < bytes.length by omega)
    exact ⟨_, by rw [u16, if_neg h, ha, hb]; rfl⟩

theorem u32_total (bytes : List UInt8) (offset : Nat) (little : Bool) :
    ∃ v, u32 bytes little offset = some v := by
  by_cases h : offset + 4 > bytes.length
  · exact ⟨0, by rw [u32, if_pos h]; rfl⟩
  · have read (i : Nat) (hi : i < 4) : ∃ v, byteAt bytes (offset + i) = some v :=
      byteAt_total (by omega)
    obtain ⟨a, ha⟩ := read 0 (by decide)
    obtain ⟨b, hb⟩ := read 1 (by decide)
    obtain ⟨c, hc⟩ := read 2 (by decide)
    obtain ⟨d, hd⟩ := read 3 (by decide)
    rw [Nat.add_zero] at ha
    exact ⟨_, by rw [u32, if_neg h, ha, hb, hc, hd]; rfl⟩

theorem scanEntries_sound (little : Bool) (remaining : Nat) :
    ∀ entry, Sound (scanEntries bytes little entry remaining) := by
  induction remaining with
  | zero => exact fun _ => sound_one
  | succ remaining ih =>
    intro entry
    rw [scanEntries]
    split
    · exact sound_one
    · obtain ⟨tag, htag⟩ := u16_total bytes entry little
      obtain ⟨type, htype⟩ := u16_total bytes (entry + 2) little
      obtain ⟨count, hcount⟩ := u32_total bytes (entry + 4) little
      obtain ⟨v, hv⟩ := u16_total bytes (entry + 8) little
      simp only [htag, htype, hcount, hv, bind_eq_bind, bind_some]
      split
      · refine ⟨_, rfl, ?_⟩
        split <;> omega
      · exact ih _

theorem readDirectory_sound (little : Bool) (tiff : Nat) :
    Sound (readDirectory bytes little tiff) := by
  obtain ⟨mark, hmark⟩ := u16_total bytes (tiff + 2) little
  obtain ⟨at', hat⟩ := u32_total bytes (tiff + 4) little
  obtain ⟨count, hcount⟩ := u16_total bytes (tiff + at') little
  simp only [readDirectory, hmark, hat, hcount, bind_eq_bind, bind_some]
  split
  · exact sound_one
  · split
    · exact sound_one
    · exact scanEntries_sound little count _

theorem readTiff_sound {tiff : Nat} (h : tiff + 1 < bytes.length) :
    Sound (readTiff bytes tiff) := by
  obtain ⟨a, ha⟩ := byteAt_total (Nat.lt_of_succ_lt h)
  obtain ⟨b, hb⟩ := byteAt_total h
  simp only [readTiff, ha, hb, bind_eq_bind, bind_some]
  split
  · exact readDirectory_sound true tiff
  · split
    · exact readDirectory_sound false tiff
    · exact sound_one

/-- The bounds check of the segment covers what the Exif branch reads. -/
theorem isExif_total (kind : Nat) {payload size : Nat}
    (h : payload + size ≤ bytes.length) :
    ∃ b, isExif bytes kind payload size = some b := by
  rw [isExif]
  split
  · exact ⟨_, by rw [window, if_pos (by omega)]; rfl⟩
  · exact ⟨false, rfl⟩

theorem isExif_room {kind payload size : Nat}
    (h : isExif bytes kind payload size = some true) : 14 ≤ size := by
  rw [isExif] at h
  split at h
  · exact (‹_ ∧ _›).2
  · cases h

theorem walk_sound (marker : Nat) : Sound (walk bytes marker) := by
  induction hn : bytes.length - marker using Nat.strong_induction_on
    generalizing marker with
  | _ n ih =>
    rw [walk]
    split
    case isFalse => exact sound_one
    case isTrue hroom =>
      obtain ⟨mark, hmark⟩ := byteAt_total (show marker < bytes.length by omega)
      obtain ⟨kind, hkind⟩ := byteAt_total (show marker + 1 < bytes.length by omega)
      obtain ⟨length, hlength⟩ := be16_total (show marker + 2 + 1 < bytes.length by omega)
      simp only [hmark, hkind, hlength, bind_eq_bind, bind_some]
      split
      · exact sound_one
      split
      · exact sound_one
      split
      · exact sound_one
      · obtain ⟨b, hb⟩ := isExif_total kind
          (show marker + 4 + (length - 2) ≤ bytes.length by omega)
        rw [hb, bind_some]
        cases b with
        | true =>
          have := isExif_room hb
          exact readTiff_sound (by omega)
        | false => exact ih _ (by omega) _ rfl

theorem orientationIn_sound : Sound (orientationIn bytes) := by
  rw [orientationIn]
  split
  · exact sound_one
  · obtain ⟨a, ha⟩ := byteAt_total (show 0 < bytes.length by omega)
    obtain ⟨b, hb⟩ := byteAt_total (show 1 < bytes.length by omega)
    simp only [ha, hb, bind_eq_bind, bind_some]
    split
    · exact sound_one
    · exact walk_sound 2

end

-- ============ what was written

/-- `part` stands at `offset`. -/
def Holds (bytes : List UInt8) (offset : Nat) (part : List UInt8) : Prop :=
  part <+: bytes.drop offset

section

variable {bytes part rest : List UInt8} {offset : Nat} {little : Bool}

theorem Holds.left (h : Holds bytes offset (part ++ rest)) :
    Holds bytes offset part :=
  (prefix_append part rest).trans h

theorem Holds.right (h : Holds bytes offset (part ++ rest)) :
    Holds bytes (offset + part.length) rest := by
  obtain ⟨t, ht⟩ := h
  refine ⟨t, ?_⟩
  rw [← drop_drop, ← ht, append_assoc, drop_left]

theorem Holds.length_le (h : Holds bytes offset part) (hp : part ≠ []) :
    offset + part.length ≤ bytes.length := by
  have hle := IsPrefix.length_le h
  have := length_pos_iff.2 hp
  rw [length_drop] at hle
  omega

theorem byteAt_holds {i : Nat} {b : UInt8} (h : Holds bytes offset part)
    (hi : part[i]? = some b) : byteAt bytes (offset + i) = some b.toNat := by
  obtain ⟨t, ht⟩ := h
  have : (part ++ t)[i]? = some b := by
    rw [getElem?_append_left (getElem?_eq_some_iff.1 hi).1, hi]
  rw [byteAt, ← getElem?_drop, ← ht, this]
  rfl

/-- Two halves put together are the value they were cut from. -/
theorem or_halves (v k : Nat) : (v / 2 ^ k) <<< k ||| v % 2 ^ k = v := by
  rw [← Nat.shiftLeft_add_eq_or_of_lt (Nat.mod_lt _ (Nat.two_pow_pos k)),
    Nat.shiftLeft_eq, Nat.mul_comm]
  exact Nat.div_add_mod v (2 ^ k)

theorem length_put16 (v : UInt16) : (put16 little v).length = 2 := by
  cases little <;> rfl

theorem length_put32 (v : UInt32) : (put32 little v).length = 4 := by
  cases little <;> rfl

theorem put16_halves (v : UInt16) :
    (v >>> 8).toUInt8.toNat <<< 8 ||| v.toUInt8.toNat = v.toNat := by
  have hv : v.toNat < 2 ^ 16 := v.toNat_lt
  have high : (v >>> 8).toUInt8.toNat = v.toNat / 2 ^ 8 := by
    simp [Nat.shiftRight_eq_div_pow]
    omega
  have low : v.toUInt8.toNat = v.toNat % 2 ^ 8 := by simp
  rw [high, low, or_halves]

theorem put32_halves (v : UInt32) :
    (v >>> 24).toUInt8.toNat <<< 24 ||| (v >>> 16).toUInt8.toNat <<< 16
      ||| (v >>> 8).toUInt8.toNat <<< 8 ||| v.toUInt8.toNat = v.toNat := by
  have hv : v.toNat < 2 ^ 32 := v.toNat_lt
  have byte (k : Nat) (n : UInt32) (hk : n.toNat % 32 = k) :
      (v >>> n).toUInt8.toNat = v.toNat / 2 ^ k % 2 ^ 8 := by
    simp [Nat.shiftRight_eq_div_pow, hk]
  have low : v.toUInt8.toNat = v.toNat % 2 ^ 8 := by simp
  rw [byte 24 24 (by decide), byte 16 16 (by decide), byte 8 8 (by decide), low]
  have h₃ : v.toNat / 2 ^ 24 % 2 ^ 8 = v.toNat / 2 ^ 16 / 2 ^ 8 := by omega
  have h₂ : v.toNat / 2 ^ 16 = v.toNat / 2 ^ 8 / 2 ^ 8 := by omega
  calc _ = (((v.toNat / 2 ^ 24 % 2 ^ 8) <<< 8 ||| v.toNat / 2 ^ 16 % 2 ^ 8) <<< 8
        ||| v.toNat / 2 ^ 8 % 2 ^ 8) <<< 8 ||| v.toNat % 2 ^ 8 := by
        simp only [Nat.shiftLeft_or_distrib, ← Nat.shiftLeft_add]
    _ = v.toNat := by rw [h₃, or_halves, h₂, or_halves, or_halves]

theorem or_reverse (a b c d : Nat) : a ||| b ||| c ||| d = d ||| c ||| b ||| a := by
  ac_rfl

theorem u16_holds {v : UInt16} (h : Holds bytes offset (put16 little v ++ rest)) :
    u16 bytes little offset = some v.toNat := by
  have hroom := h.left.length_le (by cases little <;> simp [put16])
  rw [length_put16] at hroom
  rw [u16, if_neg (by omega)]
  cases little with
  | true =>
    have h₀ : byteAt bytes offset = _ := byteAt_holds (i := 0) h rfl
    rw [h₀, byteAt_holds (i := 1) h rfl]
    simp only [bind_eq_bind, bind_some, if_true]
    rw [Nat.or_comm, put16_halves]
    rfl
  | false =>
    have h₀ : byteAt bytes offset = _ := byteAt_holds (i := 0) h rfl
    rw [h₀, byteAt_holds (i := 1) h rfl]
    simp only [bind_eq_bind, bind_some, Bool.false_eq_true, if_false]
    rw [put16_halves]
    rfl

theorem u32_holds {v : UInt32} (h : Holds bytes offset (put32 little v ++ rest)) :
    u32 bytes little offset = some v.toNat := by
  have hroom := h.left.length_le (by cases little <;> simp [put32])
  rw [length_put32] at hroom
  rw [u32, if_neg (by omega)]
  cases little with
  | true =>
    have h₀ : byteAt bytes offset = _ := byteAt_holds (i := 0) h rfl
    rw [h₀, byteAt_holds (i := 1) h rfl, byteAt_holds (i := 2) h rfl,
      byteAt_holds (i := 3) h rfl]
    simp only [bind_eq_bind, bind_some, if_true]
    rw [or_reverse, put32_halves]
    rfl
  | false =>
    have h₀ : byteAt bytes offset = _ := byteAt_holds (i := 0) h rfl
    rw [h₀, byteAt_holds (i := 1) h rfl, byteAt_holds (i := 2) h rfl,
      byteAt_holds (i := 3) h rfl]
    simp only [bind_eq_bind, bind_some, Bool.false_eq_true, if_false]
    rw [put32_halves]
    rfl

theorem be16_holds {v : UInt16} (h : Holds bytes offset (put16 false v ++ rest)) :
    be16 bytes offset = some v.toNat := by
  have h₀ : byteAt bytes offset = _ := byteAt_holds (i := 0) h rfl
  rw [be16, h₀, byteAt_holds (i := 1) h rfl, ← put16_halves v]
  rfl

-- ============ the scan

theorem length_encode (e : Entry) : (e.encode little).length = 12 := by
  simp only [Entry.encode, length_append, length_put16, length_put32]

/-- The parser's test and value of an entry are those of the entry. -/
theorem scanEntries_holds {e : Entry} {remaining : Nat}
    (h : Holds bytes offset (e.encode little ++ rest)) :
    scanEntries bytes little offset (remaining + 1)
      = if e.tag = 0x0112 ∧ e.type = 3 ∧ e.count = 1 then
        some (if 1 ≤ e.value.toNat ∧ e.value.toNat ≤ 8 then e.value.toNat else 1)
        else scanEntries bytes little (offset + 12) remaining := by
  have hroom := h.left.length_le
    (ne_nil_of_length_pos (by rw [length_encode]; decide))
  simp only [Entry.encode, append_assoc] at h
  have htype := h.right
  have hcount := htype.right
  have hvalue := hcount.right
  simp only [length_put16, length_put32, Nat.add_assoc] at htype hcount hvalue
  rw [length_encode] at hroom
  rw [scanEntries, if_neg (by omega), u16_holds h, u16_holds htype, u32_holds hcount,
    u16_holds hvalue]
  simp only [bind_eq_bind, bind_some, ← UInt16.toNat_inj, ← UInt32.toNat_inj]
  rfl

theorem scanEntries_eq (entries : List Entry) : ∀ {offset : Nat},
    Holds bytes offset (entries.flatMap (Entry.encode little)) →
    scanEntries bytes little offset entries.length = some (orientationOf entries) := by
  induction entries with
  | nil => exact fun _ => rfl
  | cons e entries ih =>
    intro offset h
    rw [flatMap_cons] at h
    have ih := ih h.right
    rw [length_encode] at ih
    rw [length_cons, scanEntries_holds h, ih, orientationOf, orientationOf,
      find?_cons]
    by_cases hit : e.tag = 0x0112 ∧ e.type = 3 ∧ e.count = 1
    · rw [if_pos hit, decide_eq_true hit]
    · rw [if_neg hit, decide_eq_false hit]

-- ============ the walk

theorem isExif_holds {kind size : Nat} (h : Holds bytes offset part)
    (hp : 14 ≤ size → 6 ≤ part.length) :
    isExif bytes kind offset size
      = some (decide (kind = 0xe1 ∧ 14 ≤ size ∧ part.take 6 = exifMark)) := by
  rw [isExif]
  by_cases hk : kind = 0xe1 ∧ 14 ≤ size
  · have hsix := hp hk.2
    have hroom := h.length_le (ne_nil_of_length_pos (by omega))
    obtain ⟨t, ht⟩ := h
    rw [if_pos hk, window, if_pos (by omega), ← ht,
      take_append_of_le_length hsix]
    simp only [hk, true_and, map_some, beq_eq_decide]
  · rw [if_neg hk, decide_eq_false (fun hand => hk ⟨hand.1, hand.2.1⟩)]
    rfl

/-- One turn of the walk, at a marker segment that fits. -/
theorem walk_step {kind : UInt8} {length : UInt16}
    (h : Holds bytes offset ([0xff, kind] ++ (put16 false length ++ part)))
    (hkind : kind ≠ 0xda ∧ kind ≠ 0xd9) (hlen : 2 ≤ length.toNat)
    (hroom : offset + 2 + length.toNat ≤ bytes.length)
    (hp : 14 ≤ length.toNat - 2 → 6 ≤ part.length) :
    walk bytes offset
      = if kind = 0xe1 ∧ 14 ≤ length.toNat - 2 ∧ part.take 6 = exifMark then
        readTiff bytes (offset + 10)
        else walk bytes (offset + (2 + length.toNat)) := by
  have h₀ : byteAt bytes offset = some 255 := byteAt_holds (i := 0) h rfl
  have hlength : Holds bytes (offset + 2) _ := h.right
  have hpart := hlength.right
  rw [length_put16] at hpart
  have hstop : ¬ (kind.toNat = 0xda ∨ kind.toNat = 0xd9) := fun hk =>
    hk.elim (fun hk => hkind.1 (UInt8.toNat_inj.1 hk))
      (fun hk => hkind.2 (UInt8.toNat_inj.1 hk))
  have hfit : ¬ (length.toNat < 2 ∨ offset + 2 + length.toNat > bytes.length) := by
    omega
  have htag : kind.toNat = 0xe1 ↔ kind = 0xe1 := UInt8.toNat_inj (b := 0xe1)
  rw [walk, dif_pos (by omega), h₀, byteAt_holds (i := 1) h rfl, be16_holds hlength]
  simp only [bind_eq_bind, bind_some]
  rw [if_neg (by decide), if_neg hstop, if_neg hfit, isExif_holds hpart hp,
    bind_some]
  simp only [decide_eq_true_eq, htag]

/-- A segment that is not the Exif segment is stepped over. -/
theorem walk_segment {s : Segment} (h : Holds bytes offset (s.encode ++ rest)) :
    walk bytes offset = walk bytes (offset + s.encode.length) := by
  have hlen : (UInt16.ofNat (s.payload.length + 2)).toNat = s.payload.length + 2 := by
    rw [UInt16.toNat_ofNat', Nat.mod_eq_of_lt s.fits]
  have hs : s.encode.length = 2 + (s.payload.length + 2) := by
    simp only [Segment.encode, length_append, length_put16, length_cons,
      length_nil]
    omega
  have hroom := h.left.length_le (ne_nil_of_length_pos (by omega))
  have h := h.left
  rw [Segment.encode, append_assoc] at h
  rw [walk_step h s.proceeds (by omega) (by omega) (by omega), hlen,
    Nat.add_sub_cancel, if_neg s.other, hs]

theorem walk_segments (segments : List Segment) : ∀ {offset : Nat},
    Holds bytes offset (segments.flatMap Segment.encode ++ rest) →
    walk bytes offset
      = walk bytes (offset + (segments.flatMap Segment.encode).length) := by
  induction segments with
  | nil => exact fun _ => rfl
  | cons s segments ih =>
    intro offset h
    rw [flatMap_cons, append_assoc] at h
    rw [walk_segment h, ih h.right, flatMap_cons, length_append, Nat.add_assoc]

-- ============ the TIFF

/-- At a header, the directory it points at. -/
theorem readTiff_holds {tiff : Nat} {at' : UInt32} {entries : List Entry}
    (h : Holds bytes tiff (tiffHeader little at'))
    (hd : Holds bytes (tiff + at'.toNat) (directory little entries))
    (hfew : entries.length < 2 ^ 16) :
    readTiff bytes tiff = some (orientationOf entries) := by
  have hcount : (UInt16.ofNat entries.length).toNat = entries.length := by
    rw [UInt16.toNat_ofNat', Nat.mod_eq_of_lt hfew]
  have hroom := hd.left.length_le (ne_nil_of_length_pos (by
    rw [length_put16]; decide))
  rw [length_put16] at hroom
  have hentries := hd.right
  rw [length_put16] at hentries
  have hdir : readDirectory bytes little tiff = some (orientationOf entries) := by
    rw [tiffHeader, append_assoc] at h
    have hmark := h.right
    have hat := hmark.right
    rw [← append_nil (put32 little at')] at hat
    have htwo : (if little then [0x49, 0x49] else [0x4d, 0x4d] :
        List UInt8).length = 2 := by
      cases little <;> rfl
    rw [htwo] at hmark hat
    rw [length_put16] at hat
    rw [readDirectory, u16_holds hmark, u32_holds hat]
    simp only [bind_eq_bind, bind_some]
    rw [if_neg (by decide), if_neg (by omega), u16_holds hd, bind_some,
      hcount, scanEntries_eq entries hentries]
  cases little with
  | true =>
    have h₀ : byteAt bytes tiff = some 73 := byteAt_holds (i := 0) h rfl
    have h₁ : byteAt bytes (tiff + 1) = some 73 := byteAt_holds (i := 1) h rfl
    rw [readTiff, h₀, h₁, ← hdir]
    rfl
  | false =>
    have h₀ : byteAt bytes tiff = some 77 := byteAt_holds (i := 0) h rfl
    have h₁ : byteAt bytes (tiff + 1) = some 77 := byteAt_holds (i := 1) h rfl
    rw [readTiff, h₀, h₁, ← hdir]
    rfl

end

-- ============ the result

/-- What stands in the upload stands in the bytes looked at, if it ends
within them. -/
theorem Holds.take {bytes part : List UInt8} {offset : Nat}
    (h : Holds bytes offset part) (hend : offset + part.length ≤ limit) :
    Holds (bytes.take limit) offset part := by
  rw [Holds, drop_take, prefix_take_iff]
  exact ⟨h, by omega⟩

namespace Jpeg

variable (j : Jpeg)

/-- From the Exif segment on. -/
def tail : List UInt8 :=
  [0xff, 0xe1] ++ (put16 false j.length ++ (exifMark ++ j.tiff))

theorem drop_app1 : j.bytes.drop j.app1 = j.tail := by
  have hsplit : j.bytes
      = ([0xff, 0xd8] ++ j.segments.flatMap Segment.encode) ++ j.tail := by
    simp only [bytes, tail, append_assoc]
  rw [hsplit, drop_left' (by rw [app1, length_append]; rfl)]

theorem drop_tiff : j.bytes.drop (j.app1 + 10) = j.tiff := by
  rw [← drop_drop, drop_app1]
  rfl

/-- The segments, the Exif segment with its header, and the directory
stand in the bytes looked at. -/
theorem exifOrientation_bytes (hw : j.Within) :
    exifOrientation j.bytes = some (orientationOf j.entries) := by
  have hseg := hw.segment
  have hroom := j.room
  have hfour : 4 + (exifMark ++ tiffHeader j.little j.offset).length = 18 := by
    cases j.little <;> rfl
  have hstart : Holds (j.bytes.take limit) 0
      ([0xff, 0xd8] ++ j.segments.flatMap Segment.encode) := by
    refine Holds.take ?_ ?_
    · rw [Holds, drop_zero, bytes, ← append_assoc]
      exact prefix_append ..
    · rw [length_append, Nat.zero_add]
      have : j.app1 ≤ limit := by omega
      exact this
  have hexif : Holds (j.bytes.take limit) j.app1 ([0xff, 0xe1]
      ++ (put16 false j.length ++ (exifMark ++ tiffHeader j.little j.offset))) := by
    refine Holds.take ?_ ?_
    · rw [Holds, drop_app1, tail]
      iterate 3 rw [prefix_append_right_inj]
      exact j.header
    · rw [length_append, length_append, length_put16, length_cons,
        length_cons, length_nil]
      omega
  have hheader := hexif.right.right.right
  have hdir : Holds (j.bytes.take limit) (j.app1 + 10 + j.offset.toNat)
      (directory j.little j.entries) := by
    refine Holds.take ?_ hw.directory
    rw [Holds, ← drop_drop, drop_tiff]
    exact j.placed
  have hlen : (j.bytes.take limit).length = min limit j.bytes.length :=
    length_take
  have h₀ : byteAt (j.bytes.take limit) 0 = some 255 :=
    byteAt_holds (i := 0) hstart rfl
  have h₁ : byteAt (j.bytes.take limit) 1 = some 216 :=
    byteAt_holds (i := 1) hstart rfl
  have hsegments : Holds (j.bytes.take limit) 2
      (j.segments.flatMap Segment.encode ++ []) := by
    rw [append_nil]
    exact hstart.right
  rw [exifOrientation, orientationIn, if_neg (by omega), h₀, h₁]
  simp only [bind_eq_bind, bind_some]
  rw [if_neg (by decide), walk_segments _ hsegments]
  exact (walk_step hexif ⟨by decide, by decide⟩ (by omega)
    (by rw [hlen]; omega) (fun _ => by omega)).trans
    ((if_pos ⟨rfl, by omega, rfl⟩).trans (readTiff_holds hheader hdir j.few))

end Jpeg

/-- On every upload the parser returns an orientation, without a read
outside the first `min(size, 2^20)` bytes; on a JPEG it returns that of
the first Exif directory. -/
theorem exifOrientation_exact :
    (∀ bytes, ∃ v, exifOrientation bytes = some v ∧ 1 ≤ v ∧ v ≤ 8)
      ∧ ∀ j : Jpeg, j.Within →
          exifOrientation j.bytes = some (orientationOf j.entries) :=
  ⟨fun _ => orientationIn_sound, Jpeg.exifOrientation_bytes⟩

/-- A comment, then a big-endian directory behind its segment: a wider
image, an orientation of the wrong type, and the orientation 6. -/
def sample : Jpeg :=
  let entries := [⟨0x0100, 3, 1, 640, 0⟩, ⟨0x0112, 4, 1, 0, 3⟩, ⟨0x0112, 3, 1, 6, 0⟩]
  { segments := [⟨0xfe, [1, 2, 3], by decide, by decide, by decide⟩]
    length := 16
    little := false
    offset := 10
    entries := entries
    tiff := tiffHeader false 10 ++ [0xff, 0xd9] ++ directory false entries
    header := by decide
    room := by decide
    few := by decide
    placed := by decide }

theorem exifOrientation_exact_sample : exifOrientation sample.bytes = some 6 :=
  exifOrientation_exact.2 sample ⟨by decide, by decide⟩

end Ginfer.Media.Exif

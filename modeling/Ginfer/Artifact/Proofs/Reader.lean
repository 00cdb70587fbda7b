/-
What an accepted artifact is, to both readers.

`Sound` is what the rest of the program relies on: names that are unique,
payloads in file order that do not overlap, aligned and within the file,
and tensor sizes that are exact. `reader_sound_and_agrees` says that what
the reader accepts is so, and that it accepts exactly what the tools
accept, as the same objects.

The two run through the directory in different orders — one object at a
time, or all objects, then all names, then all ranges — so each loop is
brought to what it says of the whole list (`InOrder`, distinct names).
-/
import Ginfer.Artifact.Proofs.Objects

namespace Ginfer.Artifact

open Ginfer.Lib Container List ObjectDescriptor
open Ginfer.Frontend (Bytes ascii)

-- ============ the ranges

/-- Objects in file order from the cursor on, aligned, within the
payloads. -/
def InOrder (payloadBytes : Nat) : Nat → List ObjectDescriptor → Prop
  | _, [] => True
  | cursor, o :: rest =>
    (cursor ≤ o.offset.toNat ∧ o.offset.toNat % o.alignment.toNat = 0
      ∧ o.offset.toNat + o.bytes.toNat ≤ payloadBytes)
    ∧ InOrder payloadBytes (o.offset.toNat + o.bytes.toNat) rest

theorem checkRange_iff {payloadBytes cursor last : UInt64}
    {entries : List ObjectDescriptor} {o : ObjectDescriptor} :
    checkRange payloadBytes cursor entries o = .ok last
      ↔ (cursor.toNat ≤ o.offset.toNat ∧ o.offset.toNat % o.alignment.toNat = 0
        ∧ o.offset.toNat + o.bytes.toNat ≤ payloadBytes.toNat)
        ∧ (∀ e ∈ entries, e.name ≠ o.name)
        ∧ last.toNat = o.offset.toNat + o.bytes.toNat := by
  have hfits := checkedAdd_fits o.offset o.bytes "object payload range"
  have hmod : o.offset % o.alignment = 0
      ↔ o.offset.toNat % o.alignment.toNat = 0 := by
    rw [← UInt64.toNat_inj, UInt64.toNat_mod]
    rfl
  have hnames : ¬ (entries.any fun e => e.name = o.name) = true
      ↔ ∀ e ∈ entries, e.name ≠ o.name := by
    simp
  have hpayload := payloadBytes.toNat_lt
  unfold checkRange
  constructor
  · intro h
    split at h
    · cases h
    next hcursor =>
    split at h
    · cases h
    next halign =>
    obtain ⟨w, hw, h⟩ := bind_ok.mp h
    split at h
    · cases h
    next hend =>
    split at h
    · cases h
    next hname =>
    cases h
    rw [UInt64.lt_iff_toNat_lt] at hcursor hend
    have hval := Settles.of_ok hfits hw
    exact ⟨⟨by omega, hmod.mp (not_not.mp halign), by omega⟩,
      hnames.mp hname, hval⟩
  · rintro ⟨⟨hcursor, halign, hend⟩, hname, hlast⟩
    obtain ⟨w, hw, hval⟩ := Settles.of_not hfits (by omega)
    obtain rfl : w = last := UInt64.toNat_inj.mp (hval.trans hlast.symm)
    rw [if_neg (by rw [UInt64.lt_iff_toNat_lt]; omega),
      if_neg (not_not.mpr (hmod.mpr halign)), hw, ok_bind,
      if_neg (by rw [UInt64.lt_iff_toNat_lt]; omega),
      if_neg (hnames.mpr hname)]

section

variable (strRepr : Bytes → Bytes)

theorem objectAlignment_toObject (o : ObjectDescriptor) :
    objectAlignment strRepr o.toObject
      = .ok o.alignment.toNat := by
  cases o with
  | tensor t =>
    obtain ⟨name, shape, format, layout, offset, bytes⟩ := t
    cases layout <;> rfl
  | resource r =>
    obtain ⟨name, encoding, offset, bytes⟩ := r
    cases encoding
    rfl

theorem toObject_offset (o : ObjectDescriptor) :
    o.toObject.offset = o.offset.toNat := by
  cases o <;> rfl

theorem toObject_bytes (o : ObjectDescriptor) :
    o.toObject.bytes = o.bytes.toNat := by
  cases o <;> rfl

theorem toObject_name (o : ObjectDescriptor) : o.toObject.name = o.name := by
  cases o <;> rfl

theorem validateRanges_iff (payloadBytes : Nat) :
    ∀ (os : List ObjectDescriptor) (cursor : Nat),
      validateRanges strRepr payloadBytes cursor (os.map toObject) = .ok ()
        ↔ InOrder payloadBytes cursor os := by
  intro os
  induction os with
  | nil =>
    intro cursor
    exact ⟨fun _ => trivial, fun _ => rfl⟩
  | cons o rest ih =>
    intro cursor
    rw [map_cons]
    unfold validateRanges InOrder
    rw [objectAlignment_toObject, ok_bind, toObject_offset, toObject_bytes, ← ih]
    constructor
    · intro h
      split at h
      · cases h
      split at h
      · cases h
      next halign =>
      split at h
      · cases h
      exact ⟨⟨by omega, not_not.mp halign, by omega⟩, h⟩
    · rintro ⟨⟨hcursor, halign, hend⟩, hrest⟩
      rw [if_neg (by omega), if_neg (not_not.mpr halign), if_neg (by omega)]
      exact hrest

end

theorem checkNames_iff : ∀ (os : List ObjectDescriptor) (names : List Bytes),
    checkNames names (os.map toObject) = .ok ()
      ↔ (∀ o ∈ os, o.name ∉ names)
        ∧ (os.map name).Nodup := by
  intro os
  induction os with
  | nil =>
    intro names
    exact ⟨fun _ => ⟨nofun, nodup_nil⟩, fun _ => rfl⟩
  | cons o rest ih =>
    intro names
    rw [map_cons, map_cons, nodup_cons]
    unfold checkNames
    rw [toObject_name]
    constructor
    · intro h
      split at h
      · cases h
      next hname =>
      obtain ⟨hrest, hnodup⟩ := (ih _).mp h
      refine ⟨?_, ?_, hnodup⟩
      · intro o' ho'
        rcases mem_cons.mp ho' with rfl | hin
        · exact hname
        · exact fun hmem => hrest o' hin (.tail _ hmem)
      · intro hmem
        obtain ⟨o', ho', heq⟩ := mem_map.mp hmem
        exact hrest o' ho' (heq ▸ (.head _))
    · rintro ⟨hnames, hfresh, hnodup⟩
      rw [if_neg (hnames o mem_cons_self), ih]
      refine ⟨?_, hnodup⟩
      intro o' ho' hmem
      rcases mem_cons.mp hmem with heq | hin
      · exact hfresh (heq ▸ mem_map_of_mem ho')
      · exact hnames o' (.tail _ ho') hin

-- ============ the loops

section

variable (strRepr : Bytes → Bytes) {payloadBytes : UInt64}

/-- What the reader's loop accepts. -/
theorem readObjects_container : ∀ (raws : List Json) (cursor : UInt64)
    (entries entries' : List ObjectDescriptor),
    (∀ v ∈ raws, v.Canonical) →
    readObjects payloadBytes cursor entries raws = .ok entries' →
    ∃ os, entries' = entries ++ os
      ∧ parseObjects strRepr raws = .ok (os.map toObject)
      ∧ InOrder payloadBytes.toNat cursor.toNat os
      ∧ (∀ o ∈ os, o.name ∉ entries.map name)
      ∧ (os.map name).Nodup
      ∧ ∀ o ∈ os, ExactObject strRepr o := by
  intro raws
  induction raws with
  | nil =>
    intro cursor entries entries' _ h
    cases h
    exact ⟨[], (append_nil _).symm, rfl, trivial, nofun, nodup_nil, nofun⟩
  | cons raw rest ih =>
    intro cursor entries entries' hcanonical h
    unfold readObjects at h
    obtain ⟨o, ho, h⟩ := bind_ok.mp h
    obtain ⟨last, hlast, h⟩ := bind_ok.mp h
    obtain ⟨hrange, hname, hval⟩ := checkRange_iff.mp hlast
    obtain ⟨hobj, hexact⟩ := parseObject_container strRepr
      (hcanonical raw (.head _)) ho
    obtain ⟨os, rfl, hobjs, horder, hfresh, hnodup, hall⟩ :=
      ih last (entries ++ [o]) entries'
        (fun v hv => hcanonical v (.tail _ hv)) h
    rw [hval] at horder
    have hnotin : o.name ∉ entries.map name := by
      intro hmem
      obtain ⟨e, he, heq⟩ := mem_map.mp hmem
      exact hname e he heq
    refine ⟨o :: os, by simp, ?_, ⟨hrange, horder⟩, ?_, ?_, ?_⟩
    · unfold parseObjects
      rw [hobj, ok_bind, hobjs]
      rfl
    · intro o' ho'
      rcases mem_cons.mp ho' with rfl | hin
      · exact hnotin
      · intro hmem
        refine hfresh o' hin ?_
        rw [map_append]
        exact mem_append_left _ hmem
    · rw [map_cons, nodup_cons]
      refine ⟨?_, hnodup⟩
      intro hmem
      obtain ⟨o', ho', heq⟩ := mem_map.mp hmem
      refine hfresh o' ho' ?_
      rw [map_append, heq]
      exact mem_append_right _ (.head _)
    · intro o' ho'
      rcases mem_cons.mp ho' with rfl | hin
      · exact hexact
      · exact hall o' hin

/-- Ranges in order end within the payloads. -/
theorem validateRanges_bound {strRepr : Bytes → Bytes} {bytes : Nat} :
    ∀ (as : List ArtifactObject) (cursor : Nat),
      validateRanges strRepr bytes cursor as = .ok () →
      ∀ a ∈ as, a.offset + a.bytes ≤ bytes := by
  intro as
  induction as with
  | nil => exact fun _ _ a ha => absurd ha not_mem_nil
  | cons first rest ih =>
    intro cursor h a ha
    unfold validateRanges at h
    obtain ⟨alignment, -, h⟩ := bind_ok.mp h
    split at h
    · cases h
    split at h
    · cases h
    split at h
    · cases h
    rcases mem_cons.mp ha with rfl | hin
    · omega
    · exact ih _ h a hin

/-- The objects the tools parse, the reader parses. -/
theorem container_parseObjects : ∀ (raws : List Json)
    (as : List ArtifactObject), (∀ v ∈ raws, v.Canonical) →
    parseObjects strRepr raws = .ok as →
    (∀ a ∈ as, a.offset + a.bytes < 2 ^ 63) →
    ∃ os, raws.length = os.length ∧ os.map toObject = as
      ∧ List.Forall₂ (fun raw o => parseObject raw = .ok o) raws os := by
  intro raws
  induction raws with
  | nil =>
    intro as _ h _
    cases h
    exact ⟨[], rfl, rfl, .nil⟩
  | cons raw rest ih =>
    intro as hcanonical h hend
    unfold parseObjects at h
    obtain ⟨first, hfirst, h⟩ := bind_ok.mp h
    obtain ⟨others, hothers, h⟩ := bind_ok.mp h
    cases h
    obtain ⟨o, ho, rfl⟩ := container_parseObject strRepr
      (hcanonical raw (.head _)) hfirst
      (hend _ (.head _))
    obtain ⟨os, hlen, rfl, hall⟩ := ih others
      (fun v hv => hcanonical v (.tail _ hv)) hothers
      (fun a ha => hend a (.tail _ ha))
    exact ⟨o :: os, by simp [hlen], rfl, .cons ho hall⟩

variable {os : List ObjectDescriptor}

/-- The reader's loop accepts objects in order with names of their own. -/
theorem readObjects_ok {raws : List Json}
    (hparsed : List.Forall₂ (fun raw o => parseObject raw = .ok o) raws os) :
    ∀ (cursor : UInt64) (entries : List ObjectDescriptor),
      InOrder payloadBytes.toNat cursor.toNat os →
      (∀ o ∈ os, o.name ∉ entries.map name) →
      (os.map name).Nodup →
      readObjects payloadBytes cursor entries raws
        = .ok (entries ++ os) := by
  induction hparsed with
  | nil =>
    intro cursor entries _ _ _
    rw [append_nil]
    rfl
  | @cons raw o rest os ho hrest ih =>
    intro cursor entries horder hfresh hnodup
    obtain ⟨hrange, horder⟩ := horder
    obtain ⟨hnotin, hnodup⟩ := nodup_cons.mp hnodup
    have hpayload := payloadBytes.toNat_lt
    obtain ⟨last, hlast⟩ : ∃ last : UInt64,
        last.toNat = o.offset.toNat + o.bytes.toNat :=
      ⟨UInt64.ofNat (o.offset.toNat + o.bytes.toNat),
        UInt64.toNat_ofNat_of_lt' (show _ < 2 ^ 64 by omega)⟩
    have hcheck : checkRange payloadBytes cursor entries o = .ok last := by
      refine checkRange_iff.mpr ⟨hrange, ?_, hlast⟩
      intro e he heq
      exact hfresh o (.head _) (heq ▸ mem_map_of_mem he)
    unfold readObjects
    rw [ho, ok_bind, hcheck, ok_bind,
      ih last (entries ++ [o]) (by rw [hlast]; exact horder) ?_ hnodup]
    · simp
    · intro o' ho' hmem
      rw [map_append] at hmem
      rcases mem_append.mp hmem with hin | hlastname
      · exact hfresh o' (.tail _ ho') hin
      · have heq : o'.name = o.name := by simpa using hlastname
        exact hnotin (heq ▸ mem_map_of_mem ho')

end

-- ============ the directory

theorem memberAt_canonical {value : Json} (h : value.Canonical)
    (key : String) : (memberAt key value).Canonical := by
  unfold memberAt
  cases hfind : value.find? (ascii key) with
  | none => exact .null
  | some v =>
    cases value with
    | object members =>
      unfold Json.find? at hfind
      obtain ⟨m, hm, rfl⟩ := Option.map_eq_some_iff.mp hfind
      cases h with
      | object _ _ hall => exact hall m (mem_of_find?_eq_some hm)
    | _ => cases hfind

theorem rawObjects_canonical {value : Json} (h : value.Canonical)
    {raws : List Json} (hraw : readRawObjects value = .ok raws) :
    ∀ v ∈ raws, v.Canonical := by
  have hobjects := memberAt_canonical h "objects"
  unfold readRawObjects at hraw
  split at hraw
  · cases hraw
  · next hitems =>
    cases hraw
    rw [hitems] at hobjects
    cases hobjects with
    | array _ hall => exact hall
  · cases hraw

/-- The identity is read the same. -/
theorem readIdentity_iff {value : Json} (h : value.Canonical)
    {identity : ArtifactIdentity} :
    readIdentity value = .ok identity
      ↔ parseIdentity value = .ok identity := by
  have hroot : requireMembers value ["identity", "objects"]
      "directory root" = .ok () ↔ _ :=
    requireMembers_iff h (by decide) _
  have hidentity : requireMembers (memberAt "identity" value)
      ["model_id", "weights_id"] "artifact identity" = .ok () ↔ _ :=
    requireMembers_iff (memberAt_canonical h "identity") (by decide) _
  have hstring : requireString = requireString := rfl
  unfold readIdentity parseIdentity
  rw [hstring]
  dsimp only
  constructor
  · intro hread
    obtain ⟨_, hr, hread⟩ := bind_ok.mp hread
    obtain ⟨_, hi, hread⟩ := bind_ok.mp hread
    rw [hroot.mp hr, hidentity.mp hi]
    exact hread
  · intro hparse
    split at hparse
    · cases hparse
    next hr =>
    rw [Bool.not_eq_true', Bool.not_eq_false] at hr
    split at hparse
    · cases hparse
    next hi =>
    rw [Bool.not_eq_true', Bool.not_eq_false] at hi
    rw [hroot.mpr hr, ok_bind, hidentity.mpr hi, ok_bind]
    exact hparse

/-- The prefix is read the same. -/
theorem readPrefix_iff (file : ArtifactFile) {start : UInt64} :
    readPrefix file = .ok start
      ↔ Container.readPrefix file = .ok start.toNat := by
  have hsize := file.size_lt
  have hhead : prefixBytes.toNat = 16 := rfl
  have hadd : Fits (checkedAdd prefixBytes file.jsonBytes "JSON range")
      (16 + file.jsonBytes.toNat) := checkedAdd_fits _ _ _
  unfold readPrefix Container.readPrefix
  rw [hhead]
  split
  · exact ⟨nofun, nofun⟩
  split
  · exact ⟨nofun, nofun⟩
  split
  · exact ⟨nofun, nofun⟩
  split
  · exact ⟨nofun, nofun⟩
  dsimp only
  have hge := le_alignUp 4096 (16 + file.jsonBytes.toNat) (by decide)
  constructor
  · intro h
    obtain ⟨metadataEnd, hmeta, h⟩ := bind_ok.mp h
    obtain ⟨payloadStart, hstart, h⟩ := bind_ok.mp h
    have hval := Settles.of_ok hadd hmeta
    have halign := Settles.of_ok (alignUp_fits metadataEnd
      payloadAlignment "payload offset" (by decide)
      (by decide)) hstart
    obtain ⟨hpayload, -⟩ := halign
    change payloadStart.toNat = Container.alignUp metadataEnd.toNat 4096
      at hpayload
    rw [hval] at hpayload
    split at h
    · cases h
    next hin =>
    cases h
    rw [if_neg (by omega), hpayload]
  · intro h
    split at h
    · cases h
    next hin =>
    injection h with h
    obtain ⟨metadataEnd, hmeta, hval⟩ := Settles.of_not hadd (by omega)
    have halign := alignUp_fits metadataEnd payloadAlignment
      "payload offset" (by decide) (by decide)
    change Settles (fun w : UInt64 => w.toNat = Container.alignUp metadataEnd.toNat
      4096 ∧ _) (2 ^ 64 ≤ Container.alignUp metadataEnd.toNat 4096) _
      at halign
    rw [hval] at halign
    obtain ⟨payloadStart, hstart, hpayload, -⟩ :=
      Settles.of_not halign (by omega)
    rw [hmeta, ok_bind, hstart, ok_bind, if_neg (by omega)]
    exact congrArg Except.ok (UInt64.toNat_inj.mp (hpayload.trans h))

-- ============ the readers

/-- What an accepted artifact is. -/
structure Sound (strRepr : Bytes → Bytes) (r : Reader) : Prop where
  names : (r.entries.map name).Nodup
  disjoint : r.entries.Pairwise fun a b =>
    a.offset.toNat + a.bytes.toNat ≤ b.offset.toNat
  aligned : ∀ o ∈ r.entries, o.offset.toNat % o.alignment.toNat = 0
  inside : ∀ o ∈ r.entries,
    r.payloadStart.toNat + o.offset.toNat + o.bytes.toNat ≤ r.fileBytes
  exact : ∀ t, .tensor t ∈ r.entries → ExactTensor strRepr t

/-- The artifact as the tools hold it. -/
def Reader.toArtifact (r : Reader) : Artifact :=
  ⟨r.fileBytes, r.identity, r.entries.map toObject, r.payloadStart.toNat⟩

theorem InOrder.all {bytes : Nat} : ∀ {os : List ObjectDescriptor}
    {cursor : Nat}, InOrder bytes cursor os →
    ∀ o ∈ os, cursor ≤ o.offset.toNat ∧ o.offset.toNat % o.alignment.toNat = 0
      ∧ o.offset.toNat + o.bytes.toNat ≤ bytes := by
  intro os
  induction os with
  | nil => exact fun _ o ho => absurd ho not_mem_nil
  | cons first rest ih =>
    rintro cursor ⟨hfirst, hrest⟩ o ho
    rcases mem_cons.mp ho with rfl | hin
    · exact hfirst
    · obtain ⟨hle, halign, hend⟩ := ih hrest o hin
      exact ⟨by omega, halign, hend⟩

theorem InOrder.pairwise {bytes : Nat} : ∀ {os : List ObjectDescriptor}
    {cursor : Nat}, InOrder bytes cursor os →
    os.Pairwise fun a b => a.offset.toNat + a.bytes.toNat
      ≤ b.offset.toNat := by
  intro os
  induction os with
  | nil => exact fun _ => .nil
  | cons first rest ih =>
    rintro cursor ⟨-, hrest⟩
    exact .cons (fun o ho => (hrest.all o ho).1) (ih hrest)

/-- The payloads start within the file. -/
theorem readPrefix_le (file : ArtifactFile) {start : Nat}
    (h : Container.readPrefix file = .ok start) : start ≤ file.size := by
  unfold Container.readPrefix at h
  split at h
  · cases h
  split at h
  · cases h
  split at h
  · cases h
  split at h
  · cases h
  dsimp only at h
  split at h
  · cases h
  · cases h
    omega

/-- The size of the payloads, as a word. -/
theorem payloadBytes_toNat (file : ArtifactFile) {start : UInt64}
    (h : readPrefix file = .ok start) :
    start.toNat ≤ file.size
      ∧ (UInt64.ofNat file.size - start).toNat
        = file.size - start.toNat := by
  have hsize := file.size_lt
  have hnat : (UInt64.ofNat file.size).toNat = file.size :=
    UInt64.toNat_ofNat_of_lt' (show _ < 2 ^ 64 by omega)
  have hle := readPrefix_le file ((readPrefix_iff file).mp h)
  refine ⟨hle, ?_⟩
  rw [UInt64.toNat_sub_of_le _ _ (by
    rw [UInt64.le_iff_toNat_le, hnat]
    exact hle), hnat]

/-- What the reader accepts is sound, and the tools accept it. -/
theorem make_sound (strRepr : Bytes → Bytes) {file : ArtifactFile}
    {r : Reader} (h : Reader.make file = .ok r) :
    Sound strRepr r
      ∧ Artifact.make strRepr file = .ok r.toArtifact := by
  unfold Reader.make at h
  obtain ⟨start, hstart, h⟩ := bind_ok.mp h
  obtain ⟨directory, hdirectory, h⟩ := bind_ok.mp h
  obtain ⟨identity, hidentity, h⟩ := bind_ok.mp h
  obtain ⟨raws, hraws, h⟩ := bind_ok.mp h
  obtain ⟨entries, hentries, h⟩ := bind_ok.mp h
  cases h
  have hcanonical : directory.Canonical := by
    unfold readDirectory at hdirectory
    split at hdirectory
    · next value _ =>
      cases hdirectory
      exact value.property
    · cases hdirectory
  obtain ⟨hle, hpayload⟩ := payloadBytes_toNat file hstart
  obtain ⟨os, hos, hparsed, horder, -, hnodup, hexact⟩ :=
    readObjects_container strRepr raws 0 [] entries
      (rawObjects_canonical hcanonical hraws) hentries
  obtain rfl : entries = os := hos
  rw [hpayload] at horder
  constructor
  · refine ⟨hnodup, horder.pairwise, fun o ho => (horder.all o ho).2.1,
      fun o ho => ?_, fun t ht => hexact (.tensor t) ht⟩
    have hend := (horder.all o ho).2.2
    show start.toNat + o.offset.toNat + o.bytes.toNat ≤ file.size
    omega
  · have hrawEq : parseRawObjects = readRawObjects := rfl
    unfold Artifact.make parseDirectory
    rw [(readPrefix_iff file).mp hstart, ok_bind, hdirectory, ok_bind,
      (readIdentity_iff hcanonical).mp hidentity, ok_bind, hrawEq, hraws,
      ok_bind, hparsed, ok_bind,
      (checkNames_iff entries []).mpr ⟨fun _ _ => not_mem_nil, hnodup⟩,
      ok_bind, ok_bind]
    dsimp only
    rw [(validateRanges_iff strRepr _ entries 0).mpr horder]
    rfl

/-- What the tools accept, the reader accepts. -/
theorem make_of_container (strRepr : Bytes → Bytes) {file : ArtifactFile}
    {a : Artifact} (h : Artifact.make strRepr file = .ok a) :
    ∃ r, Reader.make file = .ok r ∧ r.toArtifact = a := by
  unfold Artifact.make at h
  obtain ⟨offset, hoffset, h⟩ := bind_ok.mp h
  obtain ⟨directory, hdirectory, h⟩ := bind_ok.mp h
  obtain ⟨⟨identity, objects⟩, hparse, h⟩ := bind_ok.mp h
  obtain ⟨_, hranges, h⟩ := bind_ok.mp h
  cases h
  unfold parseDirectory at hparse
  obtain ⟨identity', hidentity, hparse⟩ := bind_ok.mp hparse
  obtain ⟨raws, hraws, hparse⟩ := bind_ok.mp hparse
  obtain ⟨objects', hobjects, hparse⟩ := bind_ok.mp hparse
  obtain ⟨_, hnames, hparse⟩ := bind_ok.mp hparse
  cases hparse
  have hcanonical : directory.Canonical := by
    unfold readDirectory at hdirectory
    split at hdirectory
    · next value _ =>
      cases hdirectory
      exact value.property
    · cases hdirectory
  have hrawEq : parseRawObjects = readRawObjects := rfl
  rw [hrawEq] at hraws
  have hsize := file.size_lt
  have hbound := validateRanges_bound objects 0 hranges
  obtain ⟨start, rfl⟩ : ∃ start : UInt64, offset = start.toNat := by
    have hlt : offset < 2 ^ 64 := by
      have := readPrefix_le file hoffset
      omega
    exact ⟨UInt64.ofNat offset, (UInt64.toNat_ofNat_of_lt' hlt).symm⟩
  have hstart := (readPrefix_iff file).mpr hoffset
  obtain ⟨hle, hpayload⟩ := payloadBytes_toNat file hstart
  obtain ⟨os, -, rfl, hall⟩ := container_parseObjects strRepr raws objects
    (rawObjects_canonical hcanonical hraws) hobjects
    (fun a ha => by have := hbound a ha; omega)
  have horder := (validateRanges_iff strRepr _ os 0).mp hranges
  obtain ⟨-, hnodup⟩ := (checkNames_iff os []).mp hnames
  have hread : readObjects (UInt64.ofNat file.size - start) 0 [] raws
      = .ok ([] ++ os) :=
    readObjects_ok hall 0 [] (by rw [hpayload]; exact horder)
      (fun _ _ => not_mem_nil) hnodup
  refine ⟨⟨file.size, identity, os, start⟩, ?_, rfl⟩
  unfold Reader.make
  rw [hstart, ok_bind, hdirectory, ok_bind,
    (readIdentity_iff hcanonical).mpr hidentity, ok_bind, hraws, ok_bind]
  dsimp only
  rw [hread]
  rfl

/-- What the reader accepts is sound, and it accepts exactly what the
tools accept, as the same objects. -/
theorem reader_sound_and_agrees (strRepr : Bytes → Bytes) (file : ArtifactFile) :
    (∀ r, Reader.make file = .ok r → Sound strRepr r)
      ∧ ∀ a, Container.Artifact.make strRepr file = .ok a
          ↔ ∃ r, Reader.make file = .ok r ∧ r.toArtifact = a := by
  refine ⟨fun r hr => (make_sound strRepr hr).1, fun a => ?_⟩
  constructor
  · exact make_of_container strRepr
  · rintro ⟨r, hr, rfl⟩
    exact (make_sound strRepr hr).2

/-- A map of the directory. -/
def entryOf (ms : List (String × Json)) : Json :=
  .ofMembers (ms.map fun m => (ascii m.1, m.2))

def word (s : String) : Json := .string (ascii s)

theorem entryOf_canonical {ms : List (String × Json)}
    (h : ∀ m ∈ ms, m.2.Canonical) : (entryOf ms).Canonical :=
  Json.ofMembers_canonical (List.forall_mem_map.mpr h)

/-- A Q5 matrix, and a resource behind it. -/
def twoObjects : ArtifactFile where
  size := 5000
  magic := artifactMagic
  jsonBytes := 400
  directory := .ok ⟨entryOf
    [("identity", entryOf [("model_id", word "m"), ("weights_id", word "w")]),
      ("objects", .array [
        entryOf [("name", word "a"), ("kind", word "tensor"),
          ("shape", .array [.integer 2, .integer 70]),
          ("format", word "Q5G64_F16S"), ("layout", word "row-split-k128-v1"),
          ("offset", .integer 0), ("bytes", .integer 520)],
        entryOf [("name", word "b"), ("kind", word "resource"),
          ("encoding", word "raw-bytes-v1"), ("offset", .integer 520),
          ("bytes", .integer 100)]])], by
    repeat first
      | exact .string _
      | exact .integer _
      | refine entryOf_canonical (List.forall_mem_cons.mpr ⟨?_, ?_⟩)
      | refine .array _ (List.forall_mem_cons.mpr ⟨?_, ?_⟩)
      | refine List.forall_mem_cons.mpr ⟨?_, ?_⟩
      | exact List.forall_mem_nil _⟩
  size_lt := by decide

theorem reader_sound_and_agrees_two :
    ∃ r, Reader.make twoObjects = .ok r ∧ r.entries.length = 2 ∧ Sound id r
      ∧ Container.Artifact.make id twoObjects = .ok r.toArtifact := by
  obtain ⟨hsound, hagrees⟩ := reader_sound_and_agrees id twoObjects
  have hmake : (Reader.make twoObjects).map (·.entries.length) = .ok 2 := by
    decide +kernel
  obtain ⟨r, hr, hlength⟩ := map_ok.mp hmake
  exact ⟨r, hr, hlength, hsound r hr, (hagrees _).mpr ⟨r, hr, rfl⟩⟩

end Ginfer.Artifact

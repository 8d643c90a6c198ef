import Mathlib.Algebra.BigOperators.Group.List.Basic
import ConfigGuard.Fanotify.Buffer

/-!
# Buffers made of whole events

The events a kernel of the supported version writes, each a header and any
information records, and that `process_event_buffer` reads back exactly these.
-/

namespace ConfigGuard
open LittleEndian

/-- An information record, whose header states its length. -/
structure InfoRecord where
  infoType : UInt8
  pad : UInt8
  payload : List UInt8
  fits : infoHeaderSize + payload.length < 2 ^ 16
  pidfdRoom : infoType = fanEventInfoTypePidfd →
    infoPidfdSize ≤ infoHeaderSize + payload.length

namespace InfoRecord

def length (r : InfoRecord) : Nat := infoHeaderSize + r.payload.length

def header (r : InfoRecord) : InfoHeader := ⟨r.infoType, r.pad, .ofNat r.length⟩

/-- The descriptor in the payload of a pidfd record. -/
def pidfd (r : InfoRecord) : Int32 := (UInt32.ofNat (field r.payload 0 4)).toInt32

def encode (r : InfoRecord) : List UInt8 :=
  bytes 1 r.infoType.toNat ++ (bytes 1 r.pad.toNat ++ (bytes 2 r.length ++ r.payload))

theorem length_encode (r : InfoRecord) : r.encode.length = r.length := by
  simp only [encode, List.length_append, length_bytes, length, infoHeaderSize]
  omega

theorem decodeInfoHeader_encode (r : InfoRecord) (after : List UInt8) :
    decodeInfoHeader ((r.encode ++ after).take infoHeaderSize) = r.header := by
  have hfits : r.length < 256 ^ 2 := r.fits
  simp only [decodeInfoHeader, infoHeaderSize]
  rw [field_take (by decide), field_take (by decide), field_take (by decide)]
  simp only [encode, List.append_assoc]
  rw [field_here (UInt8.toNat_lt _), field_skip 1 _ _ (by decide), field_here (UInt8.toNat_lt _),
    field_skip 1 _ _ (by decide), field_skip 1 _ _ (by decide), field_here hfits]
  simp only [header, UInt8.ofNat_toNat]

theorem header_len (r : InfoRecord) : r.header.len.toNat = r.length :=
  UInt16.toNat_ofNat_of_lt' r.fits

theorem decodePidfd_encode (r : InfoRecord) (after : List UInt8)
    (h : r.infoType = fanEventInfoTypePidfd) :
    decodePidfd ((r.encode ++ after).take infoPidfdSize) = r.pidfd := by
  have hroom := r.pidfdRoom h
  rw [infoPidfdSize, infoHeaderSize] at hroom
  rw [decodePidfd, infoPidfdSize, field_take (by decide)]
  simp only [encode, List.append_assoc]
  rw [field_skip 1 _ _ (by decide), field_skip 1 _ _ (by decide), field_skip 2 _ _ (by decide)]
  have hpayload : field (r.payload ++ after) (4 - 1 - 1 - 2) 4 = field r.payload 0 4 := by
    rw [field, field, List.drop_zero, List.drop_zero, List.take_append_of_le_length (by omega)]
  rw [hpayload, pidfd]

end InfoRecord

def infosLength (infos : List InfoRecord) : Nat := (infos.map InfoRecord.length).sum

def encodeInfos (infos : List InfoRecord) : List UInt8 := infos.flatMap InfoRecord.encode

theorem length_encodeInfos (infos : List InfoRecord) :
    (encodeInfos infos).length = infosLength infos := by
  rw [encodeInfos, List.length_flatMap, infosLength]
  simp only [InfoRecord.length_encode]

theorem length_le_infosLength (infos : List InfoRecord) : infos.length ≤ infosLength infos := by
  have h := List.length_le_sum_of_one_le (infos.map InfoRecord.length) fun n hn => by
    obtain ⟨r, -, rfl⟩ := List.mem_map.mp hn
    exact Nat.le_add_right_of_le (show 1 ≤ infoHeaderSize by decide)
  rwa [List.length_map] at h

def encodeMetadata (m : EventMetadata) : List UInt8 :=
  bytes 4 m.eventLen.toNat ++ (bytes 1 m.vers.toNat ++ (bytes 1 m.reserved.toNat ++
    (bytes 2 m.metadataLen.toNat ++ (bytes 8 m.mask.toNat ++ (bytes 4 m.fd.toUInt32.toNat ++
      bytes 4 m.pid.toUInt32.toNat)))))

theorem length_encodeMetadata (m : EventMetadata) :
    (encodeMetadata m).length = metadataSize := by
  simp only [encodeMetadata, List.length_append, length_bytes]
  rfl

theorem decodeMetadata_encode (m : EventMetadata) (after : List UInt8) :
    decodeMetadata (encodeMetadata m ++ after) = m := by
  simp only [decodeMetadata, encodeMetadata, List.append_assoc]
  simp (disch := decide) only [field_skip, Nat.reduceSub]
  rw [field_here (show m.eventLen.toNat < 256 ^ 4 from UInt32.toNat_lt _),
    field_here (show m.vers.toNat < 256 ^ 1 from UInt8.toNat_lt _),
    field_here (show m.reserved.toNat < 256 ^ 1 from UInt8.toNat_lt _),
    field_here (show m.metadataLen.toNat < 256 ^ 2 from UInt16.toNat_lt _),
    field_here (show m.mask.toNat < 256 ^ 8 from UInt64.toNat_lt _),
    field_here (show m.fd.toUInt32.toNat < 256 ^ 4 from UInt32.toNat_lt _),
    field_here (show m.pid.toUInt32.toNat < 256 ^ 4 from UInt32.toNat_lt _)]
  simp only [UInt8.ofNat_toNat, UInt16.ofNat_toNat, UInt32.ofNat_toNat, UInt64.ofNat_toNat]
  rfl

/-- An event whose length fits its header. -/
structure KernelEvent where
  reserved : UInt8
  mask : UInt64
  fd : Int32
  pid : Int32
  infos : List InfoRecord
  fits : metadataSize + infosLength infos < 2 ^ 32

namespace KernelEvent

def length (e : KernelEvent) : Nat := metadataSize + infosLength e.infos

def metadata (e : KernelEvent) : EventMetadata where
  eventLen := .ofNat e.length
  vers := fanotifyMetadataVersion
  reserved := e.reserved
  metadataLen := .ofNat metadataSize
  mask := e.mask
  fd := e.fd
  pid := e.pid

def encode (e : KernelEvent) : List UInt8 := encodeMetadata e.metadata ++ encodeInfos e.infos

/-- The descriptor of the first pidfd record, unless it is negative. -/
def firstPidfd (infos : List InfoRecord) : Option Int32 :=
  match infos.find? (·.infoType = fanEventInfoTypePidfd) with
  | none => none
  | some r => if r.pidfd < 0 then none else some r.pidfd

/-- The call the event asks for, given the generations behind the pidfds. -/
def call (generationOf : Int32 → ProcessGeneration) (e : KernelEvent) : EventCall :=
  ⟨e.metadata, (firstPidfd e.infos).map generationOf⟩

theorem length_encode (e : KernelEvent) : e.encode.length = e.length := by
  rw [encode, List.length_append, length_encodeMetadata, length_encodeInfos, length]

theorem metadata_eventLen (e : KernelEvent) : e.metadata.eventLen.toNat = e.length :=
  UInt32.toNat_ofNat_of_lt' e.fits

end KernelEvent

/-- The kernel knows the generation behind the pidfd, and closes it. -/
structure Readable (k : PidfdKernel) (generationOf : Int32 → ProcessGeneration) (pidfd : Int32) :
    Prop where
  generation : k.fromPidfd pidfd = .ok (generationOf pidfd)
  closes : k.close pidfd = true

section Decoding

variable {k : PidfdKernel} {generationOf : Int32 → ProcessGeneration}

/-- The loop over the records finds the first pidfd record. -/
theorem processInfos_encode (metadata : EventMetadata) {infos : List InfoRecord}
    (hread : ∀ pidfd, KernelEvent.firstPidfd infos = some pidfd → Readable k generationOf pidfd)
    (before : List UInt8) {fuel : Nat} (hfuel : infos.length < fuel) :
    processInfos k (before ++ encodeInfos infos) metadata fuel before.length =
      .ok (.ok ((KernelEvent.firstPidfd infos).map generationOf)) := by
  induction infos generalizing before fuel with
  | nil =>
    obtain ⟨fuel, rfl⟩ := Nat.exists_eq_add_one_of_ne_zero (show fuel ≠ 0 by omega)
    rw [processInfos, if_neg (by simp [encodeInfos])]
    rfl
  | cons r infos ih =>
    rw [List.length_cons] at hfuel
    obtain ⟨fuel, rfl⟩ := Nat.exists_eq_add_one_of_ne_zero (show fuel ≠ 0 by omega)
    have hinfos : encodeInfos (r :: infos) = r.encode ++ encodeInfos infos := by
      rw [encodeInfos, List.flatMap_cons, encodeInfos]
    have hlength : (r.encode ++ encodeInfos infos).length =
        r.length + (encodeInfos infos).length := by
      rw [List.length_append, r.length_encode]
    have hheader : infoHeaderSize ≤ r.length := Nat.le_add_right _ _
    have hhere : before.length < (before ++ (r.encode ++ encodeInfos infos)).length := by
      rw [List.length_append, hlength]
      have : 0 < infoHeaderSize := by decide
      omega
    rw [hinfos, processInfos, if_pos hhere]
    simp only [List.drop_left, hlength]
    rw [if_neg (by omega), readAt_of_le (by omega), List.drop_zero]
    simp only [r.decodeInfoHeader_encode, r.header_len]
    rw [if_neg (by omega)]
    by_cases htype : r.infoType = fanEventInfoTypePidfd
    · have hroom := r.pidfdRoom htype
      rw [← InfoRecord.length] at hroom
      have hfirst : KernelEvent.firstPidfd (r :: infos) =
          if r.pidfd < 0 then none else some r.pidfd := by
        simp [KernelEvent.firstPidfd, htype]
      rw [if_pos (show r.header.infoType = _ from htype), if_neg (by omega),
        readAt_of_le (by omega), List.drop_zero]
      simp only [r.decodePidfd_encode _ htype, generationFromPidfd, hfirst]
      by_cases hneg : r.pidfd < 0
      · simp [hneg]
      · obtain ⟨hgeneration, hcloses⟩ := hread r.pidfd (by rw [hfirst, if_neg hneg])
        simp [hneg, hgeneration, hcloses]
    · have hfirst : KernelEvent.firstPidfd (r :: infos) = KernelEvent.firstPidfd infos := by
        simp [KernelEvent.firstPidfd, htype]
      rw [if_neg (show ¬ r.header.infoType = _ from htype), hfirst]
      have hnext : (before ++ r.encode).length = before.length + r.length := by
        rw [List.length_append, r.length_encode]
      rw [← List.append_assoc, ← hnext]
      exact ih (fun pidfd hpidfd => hread pidfd (by rw [hfirst, hpidfd])) _ (by omega)

/-- An encoded event is taken for what it is. -/
theorem KernelEvent.accepts (e : KernelEvent) (after : List UInt8)
    (hread : ∀ pidfd, KernelEvent.firstPidfd e.infos = some pidfd →
      Readable k generationOf pidfd) :
    Accepts k (e.encode ++ after) (e.call generationOf) := by
  have hlength : e.length = metadataSize + infosLength e.infos := rfl
  have hsize : 0 < metadataSize := by decide
  refine ⟨?_, ?_, rfl, ?_, ?_, ?_, ?_⟩
  · rw [List.length_append, e.length_encode]
    omega
  · rw [encode, List.append_assoc, decodeMetadata_encode]
    rfl
  · intro hzero
    have hlen := e.metadata_eventLen
    rw [show e.metadata.eventLen = 0 from hzero] at hlen
    have : e.length = 0 := hlen.symm
    omega
  · rw [show (e.call generationOf).metadata.eventLen.toNat = e.length from e.metadata_eventLen]
    exact Nat.le_add_right metadataSize _
  · rw [show (e.call generationOf).metadata.eventLen.toNat = e.length from e.metadata_eventLen,
      List.length_append, e.length_encode]
    omega
  · rw [show (e.call generationOf).metadata.eventLen.toNat = e.length from e.metadata_eventLen,
      List.take_left' e.length_encode, processGeneration]
    have hoffset : (e.call generationOf).metadata.metadataLen.toNat =
        (encodeMetadata e.metadata).length := by
      rw [length_encodeMetadata]
      rfl
    rw [hoffset, encode]
    refine processInfos_encode _ hread _ ?_
    have hcount := length_le_infosLength e.infos
    rw [List.length_append, length_encodeInfos]
    omega

/-- Whole events are walked over to the end of the buffer. -/
theorem walk_events {events : List KernelEvent}
    (hread : ∀ e ∈ events, ∀ pidfd, KernelEvent.firstPidfd e.infos = some pidfd →
      Readable k generationOf pidfd) :
    Walk k (events.flatMap KernelEvent.encode) (events.map (KernelEvent.call generationOf)) [] := by
  induction events with
  | nil => exact .here []
  | cons e events ih =>
    have haccepts := e.accepts (events.flatMap KernelEvent.encode) (hread e List.mem_cons_self)
    refine .event haccepts ?_
    rw [show (e.call generationOf).metadata.eventLen.toNat = e.length from e.metadata_eventLen,
      List.flatMap_cons, List.drop_left' e.length_encode]
    exact ih fun other hother => hread other (List.mem_cons_of_mem _ hother)

end Decoding

/-- A buffer made of whole events is read back event by event, until the
handler fails. -/
theorem processEventBuffer_encode {ε : Type} (k : PidfdKernel)
    (generationOf : Int32 → ProcessGeneration) (handleEvent : EventHandler ε)
    (events : List KernelEvent) (buffer : EventBuffer)
    (hbuffer : buffer.bytes = events.flatMap KernelEvent.encode)
    (hread : ∀ e ∈ events, ∀ pidfd, KernelEvent.firstPidfd e.infos = some pidfd →
      Readable k generationOf pidfd) :
    processEventBuffer k handleEvent buffer =
      .ok (deliver handleEvent [] (events.map (KernelEvent.call generationOf))) := by
  have hend : IsFragment [] := show 0 < metadataSize by decide
  rw [processEventBuffer]
  refine processEvents_walk buffer.small ?_ (.inl hend) (Nat.zero_le _) (by omega)
  rw [List.drop_zero, hbuffer]
  exact walk_events hread

/-- A kernel whose pidfds are all open. -/
def openPidfds : PidfdKernel where
  fstatfs := fun _ => .ok pidFsMagic
  fstat := fun pidfd => .ok ⟨5, pidfd.toUInt32.toNat⟩
  close := fun _ => true

/-- The descriptor of the process, number 9. -/
def pidfdRecord : InfoRecord where
  infoType := fanEventInfoTypePidfd
  pad := 0
  payload := [9, 0, 0, 0]
  fits := by decide
  pidfdRoom := by decide

/-- A record of another type in front of the pidfd, and an event without records. -/
def twoEvents : List KernelEvent :=
  [⟨0, 8, 5, 42, [⟨1, 0, [7], by decide, by decide⟩, pidfdRecord], by decide⟩,
    ⟨0, 8, 6, 43, [], by decide⟩]

theorem processEventBuffer_encode_twoEvents :
    processEventBuffer openPidfds (fun _ _ => .ok () : EventHandler Unit)
        ⟨twoEvents.flatMap KernelEvent.encode, by decide⟩ =
      .ok (.ok (), twoEvents.map (KernelEvent.call fun pidfd => ⟨5, pidfd.toUInt32.toNat⟩)) :=
  processEventBuffer_encode openPidfds (fun pidfd => ⟨5, pidfd.toUInt32.toNat⟩)
    (fun _ _ => .ok ()) twoEvents _ rfl fun _ _ _ _ => ⟨rfl, rfl⟩

end ConfigGuard

import ConfigGuard.Audit.ProcessCache
import ConfigGuard.Library.LittleEndian

/-!
# The buffer the kernel fills with events

`process_event_buffer` of `fanotify.rs` and the part of `event.rs` under it.
The structures are read out of the buffer without alignment, at the offsets and
in the byte order of the machine's C layout.
-/

namespace ConfigGuard
open LittleEndian

/-- A loop that would not end, or a read outside the bytes it is made from. -/
inductive Fault where
  | outOfBounds
  | outOfFuel
  deriving DecidableEq, Repr

/-- The `n` bytes an unaligned read at `offset` touches. -/
def readAt (bs : List UInt8) (offset n : Nat) : Except Fault (List UInt8) :=
  if offset + n ≤ bs.length then .ok ((bs.drop offset).take n) else .error .outOfBounds

/-- `fanotify_event_metadata` -/
structure EventMetadata where
  eventLen : UInt32
  vers : UInt8
  reserved : UInt8
  metadataLen : UInt16
  mask : UInt64
  fd : Int32
  pid : Int32
  deriving DecidableEq

def metadataSize : Nat := 24

def fanotifyMetadataVersion : UInt8 := 3

def decodeMetadata (bs : List UInt8) : EventMetadata where
  eventLen := .ofNat (field bs 0 4)
  vers := .ofNat (field bs 4 1)
  reserved := .ofNat (field bs 5 1)
  metadataLen := .ofNat (field bs 6 2)
  mask := .ofNat (field bs 8 8)
  fd := (UInt32.ofNat (field bs 16 4)).toInt32
  pid := (UInt32.ofNat (field bs 20 4)).toInt32

/-- `FanotifyEventInfoHeader` -/
structure InfoHeader where
  infoType : UInt8
  pad : UInt8
  len : UInt16
  deriving DecidableEq

def infoHeaderSize : Nat := 4

/-- The size of `FanotifyEventInfoPidfd`, a header and a pidfd. -/
def infoPidfdSize : Nat := 8

def fanEventInfoTypePidfd : UInt8 := 4

def decodeInfoHeader (bs : List UInt8) : InfoHeader where
  infoType := .ofNat (field bs 0 1)
  pad := .ofNat (field bs 1 1)
  len := .ofNat (field bs 2 2)

def decodePidfd (bs : List UInt8) : Int32 := (UInt32.ofNat (field bs 4 4)).toInt32

inductive PidfdError where
  | readingFsType (error : String)
  | notPidfs (magic : Int)
  | readingGeneration (error : String)
  deriving DecidableEq, Repr

/-- What the kernel answers about a pidfd that is open while the buffer is
processed, and the outcome of closing it. -/
structure PidfdKernel where
  fstatfs : Int32 → Except String Int
  fstat : Int32 → Except String ProcessGeneration
  close : Int32 → Bool

def pidFsMagic : Int := 0x50494446

def PidfdKernel.fromPidfd (k : PidfdKernel) (pidfd : Int32) : Except PidfdError ProcessGeneration :=
  match k.fstatfs pidfd with
  | .error error => .error (.readingFsType error)
  | .ok magic =>
    if magic = pidFsMagic then (k.fstat pidfd).mapError .readingGeneration
    else .error (.notPidfs magic)

/-- The errors of `event.rs`. -/
inductive EventError where
  | unsupportedVersion (vers : UInt8)
  | truncatedHeader
  | invalidInfoLength (infoLen : Nat)
  | truncatedPidfd
  | closing (fd : Int32)
  | validating (pid : Int32) (error : PidfdError)
  deriving DecidableEq

/-- The outermost text of the error. -/
def EventError.message : EventError → String
  | unsupportedVersion vers =>
    s!"unsupported fanotify metadata version: kernel={vers} expected={fanotifyMetadataVersion}"
  | truncatedHeader => "truncated fanotify event information header"
  | invalidInfoLength infoLen => s!"invalid fanotify event information length: {infoLen}"
  | truncatedPidfd => "truncated fanotify pidfd information"
  | closing fd => s!"closing fanotify event descriptor {fd}"
  | validating pid _ => s!"validating pidfd for process {pid}"

def validateMetadataVersion (metadata : EventMetadata) : Except EventError Unit :=
  if metadata.vers ≠ fanotifyMetadataVersion then .error (.unsupportedVersion metadata.vers)
  else .ok ()

section Processing

variable (k : PidfdKernel)

/-- The pidfd is closed in either case, and a failure to close it comes first. -/
def generationFromPidfd (pid pidfd : Int32) :
    Except EventError (Option ProcessGeneration) :=
  if pidfd < 0 then .ok none
  else if k.close pidfd then
    match k.fromPidfd pidfd with
    | .ok generation => .ok (some generation)
    | .error error => .error (.validating pid error)
  else .error (.closing pidfd)

/-- The loop over the information records of one event. -/
def processInfos (event : List UInt8) (metadata : EventMetadata) :
    Nat → Nat → Except Fault (Except EventError (Option ProcessGeneration))
  | 0, _ => .error .outOfFuel
  | fuel + 1, offset =>
    if offset < event.length then
      let remaining := event.drop offset
      if remaining.length < infoHeaderSize then .ok (.error .truncatedHeader)
      else
        match readAt remaining 0 infoHeaderSize with
        | .error fault => .error fault
        | .ok bs =>
          let header := decodeInfoHeader bs
          let infoLen := header.len.toNat
          if infoLen < infoHeaderSize ∨ infoLen > remaining.length then
            .ok (.error (.invalidInfoLength infoLen))
          else if header.infoType = fanEventInfoTypePidfd then
            if infoLen < infoPidfdSize then .ok (.error .truncatedPidfd)
            else
              match readAt remaining 0 infoPidfdSize with
              | .error fault => .error fault
              | .ok bs => .ok (generationFromPidfd k metadata.pid (decodePidfd bs))
          else processInfos event metadata fuel (offset + infoLen)
    else .ok (.ok none)

/-- Every record is at least a header long, so the length of the event is fuel enough. -/
def processGeneration (event : List UInt8) (metadata : EventMetadata) :
    Except Fault (Except EventError (Option ProcessGeneration)) :=
  processInfos k event metadata (event.length + 1) metadata.metadataLen.toNat

/-- What the handler is called with. -/
structure EventCall where
  metadata : EventMetadata
  generation : Option ProcessGeneration
  deriving DecidableEq

/-- The handler may remember every call before. -/
abbrev EventHandler (ε : Type) := List EventCall → EventCall → Except ε Unit

/-- A slice of bytes, which the language bounds by half of the address space. -/
structure EventBuffer where
  bytes : List UInt8
  small : bytes.length < 2 ^ 63

inductive BufferError (ε : Type) where
  | event (error : EventError)
  | lengthOverflow
  | invalidLength (eventLen metadataLen remaining : Nat)
  | handling (error : ε)

def BufferError.message {ε : Type} (handlerMessage : ε → String) : BufferError ε → String
  | event error => error.message
  | lengthOverflow => "fanotify event length overflow"
  | invalidLength eventLen metadataLen remaining =>
    s!"invalid fanotify event length: event_len={eventLen} metadata_len={metadataLen} remaining={remaining}"
  | handling error => handlerMessage error

variable {ε : Type} (handleEvent : EventHandler ε)

/-- The loop over the events, with the calls made so far. -/
def processEvents (buffer : List UInt8) :
    Nat → Nat → List EventCall → Except Fault (Except (BufferError ε) Unit × List EventCall)
  | 0, _, _ => .error .outOfFuel
  | fuel + 1, offset, calls =>
    if offset + metadataSize ≤ buffer.length then
      match readAt buffer offset metadataSize with
      | .error fault => .error fault
      | .ok bs =>
        let metadata := decodeMetadata bs
        match validateMetadataVersion metadata with
        | .error error => .ok (.error (.event error), calls)
        | .ok _ =>
          if metadata.eventLen = 0 then .ok (.ok (), calls)
          else
            let eventLen := metadata.eventLen.toNat
            let eventEnd := offset + eventLen
            if eventEnd ≥ 2 ^ 64 then .ok (.error .lengthOverflow, calls)
            else if eventLen < metadata.metadataLen.toNat ∨ eventEnd > buffer.length then
              .ok (.error (.invalidLength eventLen metadata.metadataLen.toNat
                (buffer.length - offset)), calls)
            else
              match processGeneration k ((buffer.drop offset).take eventLen) metadata with
              | .error fault => .error fault
              | .ok (.error error) => .ok (.error (.event error), calls)
              | .ok (.ok generation) =>
                match handleEvent calls ⟨metadata, generation⟩ with
                | .error error => .ok (.error (.handling error), calls ++ [⟨metadata, generation⟩])
                | .ok _ =>
                  processEvents buffer fuel eventEnd (calls ++ [⟨metadata, generation⟩])
    else .ok (.ok (), calls)

/-- The result and the calls of the handler, the last of them perhaps failed. -/
def processEventBuffer (buffer : EventBuffer) :
    Except Fault (Except (BufferError ε) Unit × List EventCall) :=
  processEvents k handleEvent buffer.bytes (buffer.bytes.length + 1) 0 []

theorem readAt_of_le {bs : List UInt8} {offset n : Nat} (h : offset + n ≤ bs.length) :
    readAt bs offset n = .ok ((bs.drop offset).take n) := if_pos h

theorem decodeMetadata_take {bs : List UInt8} {n : Nat} (h : metadataSize ≤ n) :
    decodeMetadata (bs.take n) = decodeMetadata bs := by
  rw [metadataSize] at h
  simp only [decodeMetadata]
  rw [field_take (by omega), field_take (by omega), field_take (by omega), field_take (by omega),
    field_take (by omega), field_take (by omega), field_take (by omega)]

theorem processInfos_ok (event : List UInt8) (metadata : EventMetadata) {fuel offset : Nat}
    (hpos : 0 < fuel) (h : event.length < fuel + offset) :
    ∃ result, processInfos k event metadata fuel offset = .ok result := by
  induction fuel generalizing offset with
  | zero => omega
  | succ fuel ih =>
    rw [processInfos]
    split
    · dsimp only
      have hremaining : (event.drop offset).length = event.length - offset := List.length_drop
      split
      · exact ⟨_, rfl⟩
      · rename_i hroom
        rw [readAt_of_le (by omega)]
        dsimp only
        generalize decodeInfoHeader _ = header
        split
        · exact ⟨_, rfl⟩
        · rename_i hlen
          rw [infoHeaderSize, not_or] at hlen
          split
          · split
            · exact ⟨_, rfl⟩
            · rename_i hpidfd
              rw [readAt_of_le (by omega)]
              exact ⟨_, rfl⟩
          · exact ih (by omega) (by omega)
    · exact ⟨_, rfl⟩

theorem processGeneration_ok (event : List UInt8) (metadata : EventMetadata) :
    ∃ result, processGeneration k event metadata = .ok result :=
  processInfos_ok k event metadata (Nat.succ_pos _) (by omega)

end Processing

/-- The loop takes these bytes in front of it for an event and calls the handler. -/
structure Accepts (k : PidfdKernel) (rest : List UInt8) (call : EventCall) : Prop where
  room : metadataSize ≤ rest.length
  metadata : call.metadata = decodeMetadata rest
  version : call.metadata.vers = fanotifyMetadataVersion
  advances : call.metadata.eventLen ≠ 0
  header : call.metadata.metadataLen.toNat ≤ call.metadata.eventLen.toNat
  fits : call.metadata.eventLen.toNat ≤ rest.length
  generation : processGeneration k (rest.take call.metadata.eventLen.toNat) call.metadata =
    .ok (.ok call.generation)

/-- Fewer bytes than an event's header. -/
def IsFragment (rest : List UInt8) : Prop := rest.length < metadataSize

/-- A header of the supported version with no length. -/
structure IsZeroLength (rest : List UInt8) : Prop where
  room : metadataSize ≤ rest.length
  version : (decodeMetadata rest).vers = fanotifyMetadataVersion
  zero : (decodeMetadata rest).eventLen = 0

section OneEvent

variable {ε : Type} {k : PidfdKernel} {handleEvent : EventHandler ε} {buffer : List UInt8}
  {fuel offset : Nat} {calls : List EventCall}

theorem processEvents_fragment (h : IsFragment (buffer.drop offset)) :
    processEvents k handleEvent buffer (fuel + 1) offset calls = .ok (.ok (), calls) := by
  rw [IsFragment, List.length_drop, metadataSize] at h
  rw [processEvents, if_neg (by rw [metadataSize]; omega)]

/-- One iteration over whole headers, on the bytes in front of it. -/
theorem processEvents_header (hsmall : buffer.length < 2 ^ 63)
    (hroom : metadataSize ≤ (buffer.drop offset).length) :
    processEvents k handleEvent buffer (fuel + 1) offset calls =
      let rest := buffer.drop offset
      let metadata := decodeMetadata rest
      match validateMetadataVersion metadata with
      | .error error => .ok (.error (.event error), calls)
      | .ok _ =>
        if metadata.eventLen = 0 then .ok (.ok (), calls)
        else if metadata.eventLen.toNat < metadata.metadataLen.toNat ∨
            rest.length < metadata.eventLen.toNat then
          .ok (.error (.invalidLength metadata.eventLen.toNat metadata.metadataLen.toNat
            rest.length), calls)
        else
          match processGeneration k (rest.take metadata.eventLen.toNat) metadata with
          | .error fault => .error fault
          | .ok (.error error) => .ok (.error (.event error), calls)
          | .ok (.ok generation) =>
            match handleEvent calls ⟨metadata, generation⟩ with
            | .error error => .ok (.error (.handling error), calls ++ [⟨metadata, generation⟩])
            | .ok _ =>
              processEvents k handleEvent buffer fuel (offset + metadata.eventLen.toNat)
                (calls ++ [⟨metadata, generation⟩]) := by
  rw [List.length_drop, metadataSize] at hroom
  have hlt : (decodeMetadata (buffer.drop offset)).eventLen.toNat < 2 ^ 32 := UInt32.toNat_lt _
  have hend : (offset + (decodeMetadata (buffer.drop offset)).eventLen.toNat > buffer.length) =
      ((buffer.drop offset).length < (decodeMetadata (buffer.drop offset)).eventLen.toNat) := by
    rw [List.length_drop, eq_iff_iff]
    omega
  rw [processEvents, if_pos (by rw [metadataSize]; omega),
    readAt_of_le (by rw [metadataSize]; omega)]
  simp only [decodeMetadata_take (Nat.le_refl _), hend, List.length_drop,
    if_neg (show ¬ offset + (decodeMetadata (buffer.drop offset)).eventLen.toNat ≥ 2 ^ 64 by omega)]

theorem processEvents_zeroLength (hsmall : buffer.length < 2 ^ 63)
    (h : IsZeroLength (buffer.drop offset)) :
    processEvents k handleEvent buffer (fuel + 1) offset calls = .ok (.ok (), calls) := by
  rw [processEvents_header hsmall h.room]
  simp only [validateMetadataVersion, h.version, h.zero, ne_eq, not_true_eq_false, if_false,
    if_true]

theorem processEvents_accepts (hsmall : buffer.length < 2 ^ 63) {call : EventCall}
    (h : Accepts k (buffer.drop offset) call) :
    processEvents k handleEvent buffer (fuel + 1) offset calls =
      match handleEvent calls call with
      | .error error => .ok (.error (.handling error), calls ++ [call])
      | .ok _ =>
        processEvents k handleEvent buffer fuel (offset + call.metadata.eventLen.toNat)
          (calls ++ [call]) := by
  obtain ⟨metadata, generation⟩ := call
  obtain ⟨hroom, rfl, hversion, hadvances, hheader, hfits, hgeneration⟩ := h
  dsimp only at hversion hadvances hheader hfits hgeneration
  rw [processEvents_header hsmall hroom]
  simp only [validateMetadataVersion, hversion, ne_eq, not_true_eq_false, if_false,
    if_neg hadvances, Nat.not_lt.mpr hheader, Nat.not_lt.mpr hfits, or_self, hgeneration]

variable (k handleEvent fuel calls) in
/-- What the loop does with the bytes in front of it: it ends, rejects them,
or calls the handler. -/
theorem processEvents_cases (hsmall : buffer.length < 2 ^ 63) :
    (IsFragment (buffer.drop offset) ∨ IsZeroLength (buffer.drop offset)) ∨
      (∃ error, processEvents k handleEvent buffer (fuel + 1) offset calls =
        .ok (.error error, calls)) ∨
      ∃ call, Accepts k (buffer.drop offset) call := by
  by_cases hroom : metadataSize ≤ (buffer.drop offset).length
  · rw [processEvents_header hsmall hroom]
    by_cases hversion : (decodeMetadata (buffer.drop offset)).vers = fanotifyMetadataVersion
    · by_cases hzero : (decodeMetadata (buffer.drop offset)).eventLen = 0
      · exact .inl (.inr ⟨hroom, hversion, hzero⟩)
      · right
        simp only [validateMetadataVersion, hversion, ne_eq, not_true_eq_false, if_false,
          if_neg hzero]
        split
        · exact .inl ⟨_, rfl⟩
        · rename_i hlengths
          rw [not_or, Nat.not_lt, Nat.not_lt] at hlengths
          obtain ⟨result, hresult⟩ := processGeneration_ok k
            ((buffer.drop offset).take (decodeMetadata (buffer.drop offset)).eventLen.toNat)
            (decodeMetadata (buffer.drop offset))
          cases result with
          | error error => exact .inl ⟨.event error, by rw [hresult]⟩
          | ok generation =>
            exact .inr ⟨⟨decodeMetadata (buffer.drop offset), generation⟩, hroom, rfl, hversion,
              hzero, hlengths.1, hlengths.2, hresult⟩
    · refine .inr (.inl ⟨.event (.unsupportedVersion (decodeMetadata (buffer.drop offset)).vers), ?_⟩)
      simp only [validateMetadataVersion, ne_eq, hversion, not_false_eq_true, if_true]
  · exact .inl (.inl (Nat.not_le.mp hroom))

end OneEvent

/-- The loop gets from the first bytes to the last by the calls in between,
unless the handler fails. -/
inductive Walk (k : PidfdKernel) : List UInt8 → List EventCall → List UInt8 → Prop
  | here (rest : List UInt8) : Walk k rest [] rest
  | event {rest rest' : List UInt8} {call : EventCall} {calls : List EventCall} :
    Accepts k rest call → Walk k (rest.drop call.metadata.eventLen.toNat) calls rest' →
    Walk k rest (call :: calls) rest'

/-- The handler called with one after the other until it fails. -/
def deliver {ε : Type} (handleEvent : EventHandler ε) :
    List EventCall → List EventCall → Except (BufferError ε) Unit × List EventCall
  | made, [] => (.ok (), made)
  | made, call :: calls =>
    match handleEvent made call with
    | .error error => (.error (.handling error), made ++ [call])
    | .ok _ => deliver handleEvent (made ++ [call]) calls

section WholeBuffer

variable {ε : Type} {k : PidfdKernel} {handleEvent : EventHandler ε} {buffer : List UInt8}

theorem Accepts.eventLen_pos {rest : List UInt8} {call : EventCall} (h : Accepts k rest call) :
    0 < call.metadata.eventLen.toNat := by
  rw [Nat.pos_iff_ne_zero]
  intro hzero
  exact h.advances (UInt32.toNat_inj.mp hzero)

/-- A walk to where the loop ends is the run of the loop. -/
theorem processEvents_walk (hsmall : buffer.length < 2 ^ 63) {fuel offset : Nat}
    {made calls : List EventCall} {rest : List UInt8}
    (hwalk : Walk k (buffer.drop offset) calls rest) (hend : IsFragment rest ∨ IsZeroLength rest)
    (hoffset : offset ≤ buffer.length) (hfuel : buffer.length < fuel + offset) :
    processEvents k handleEvent buffer fuel offset made =
      .ok (deliver handleEvent made calls) := by
  induction calls generalizing fuel offset made with
  | nil =>
    cases hwalk
    obtain ⟨fuel, rfl⟩ := Nat.exists_eq_add_one_of_ne_zero (show fuel ≠ 0 by omega)
    rcases hend with hfragment | hzero
    · exact processEvents_fragment hfragment
    · exact processEvents_zeroLength hsmall hzero
  | cons call calls ih =>
    cases hwalk with
    | event haccepts hwalk =>
      obtain ⟨fuel, rfl⟩ := Nat.exists_eq_add_one_of_ne_zero (show fuel ≠ 0 by omega)
      have hpos := haccepts.eventLen_pos
      have hfits := haccepts.fits
      rw [List.length_drop] at hfits
      rw [List.drop_drop] at hwalk
      rw [processEvents_accepts hsmall haccepts, deliver]
      split
      · rfl
      · exact ih hwalk (by omega) (by omega)

/-- The loop ends without a fault, and where it ends well it has walked to a
fragment or a header without length. -/
theorem processEvents_result (hsmall : buffer.length < 2 ^ 63) {fuel offset : Nat}
    {made : List EventCall} (hoffset : offset ≤ buffer.length)
    (hfuel : buffer.length < fuel + offset) :
    ∃ result calls, processEvents k handleEvent buffer fuel offset made =
        .ok (result, made ++ calls) ∧
      (result = .ok () → ∃ rest, Walk k (buffer.drop offset) calls rest ∧
        (IsFragment rest ∨ IsZeroLength rest)) := by
  induction fuel generalizing offset made with
  | zero => omega
  | succ fuel ih =>
    rcases processEvents_cases k handleEvent fuel made hsmall with hend | ⟨error, hresult⟩ | ⟨call, haccepts⟩
    · refine ⟨.ok (), [], ?_, fun _ => ⟨_, .here _, hend⟩⟩
      rw [List.append_nil]
      rcases hend with hfragment | hzero
      · exact processEvents_fragment hfragment
      · exact processEvents_zeroLength hsmall hzero
    · exact ⟨.error error, [], by rw [List.append_nil, hresult], nofun⟩
    · rw [processEvents_accepts hsmall haccepts]
      split
      · rename_i error _
        exact ⟨.error (.handling error), [call], rfl, nofun⟩
      · have hpos := haccepts.eventLen_pos
        have hfits := haccepts.fits
        rw [List.length_drop] at hfits
        obtain ⟨result, calls, hresult, hwalk⟩ := @ih
          (offset + call.metadata.eventLen.toNat) (made ++ [call]) (by omega) (by omega)
        refine ⟨result, call :: calls, by rw [hresult, List.append_assoc]; rfl, ?_⟩
        intro hok
        obtain ⟨rest, hrest, hend⟩ := hwalk hok
        rw [← List.drop_drop] at hrest
        exact ⟨rest, .event haccepts hrest, hend⟩

end WholeBuffer

end ConfigGuard

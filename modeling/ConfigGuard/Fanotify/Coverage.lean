import Mathlib.Algebra.BigOperators.Group.List.Basic
import ConfigGuard.Fanotify.Buffer

/-!
# Buffers that are not made of whole events

`process_event_buffer` ends without an error where a header states no length
and where too few bytes are left for a header, and it does not compare the
length of an event with the size of a header.
-/

namespace ConfigGuard

/-- The calls were made for consecutive slices that make up all the bytes, each
at least a header long and as long as its header says. -/
def CoveredBy (bytes : List UInt8) (calls : List EventCall) : Prop :=
  ∃ slices : List (List UInt8), slices.flatten = bytes ∧
    slices.map decodeMetadata = calls.map (·.metadata) ∧
    ∀ slice ∈ slices, metadataSize ≤ slice.length ∧
      (decodeMetadata slice).eventLen.toNat = slice.length

/-- The buffer is processed without a fault, and accepted only when the calls cover it. -/
structure NeverSilent {ε : Type} (k : PidfdKernel) (handleEvent : EventHandler ε)
    (buffer : EventBuffer) : Prop where
  ends : ∃ result, processEventBuffer k handleEvent buffer = .ok result
  covered : ∀ calls, processEventBuffer k handleEvent buffer = .ok (.ok (), calls) →
    CoveredBy buffer.bytes calls

/-- Walking over the events of a buffer one never comes to a fragment or to a
header without length, and at the end of the buffer no event was too short. -/
def NothingSkipped (k : PidfdKernel) (bytes : List UInt8) : Prop :=
  ∀ calls rest, Walk k bytes calls rest →
    (IsFragment rest → rest = []) ∧ ¬ IsZeroLength rest ∧
      (rest = [] → ∀ call ∈ calls, metadataSize ≤ call.metadata.eventLen.toNat)

def totalLength (calls : List EventCall) : Nat :=
  (calls.map fun call => call.metadata.eventLen.toNat).sum

theorem Walk.length {k : PidfdKernel} {bytes rest : List UInt8} {calls : List EventCall}
    (h : Walk k bytes calls rest) : bytes.length = totalLength calls + rest.length := by
  induction h with
  | here rest => exact (Nat.zero_add _).symm
  | event haccepts hwalk ih =>
    have hfits := haccepts.fits
    rw [List.length_drop] at ih
    rw [totalLength, List.map_cons, List.sum_cons, ← totalLength]
    omega

theorem CoveredBy.length {bytes : List UInt8} {calls : List EventCall} (h : CoveredBy bytes calls) :
    bytes.length = totalLength calls := by
  obtain ⟨slices, rfl, hcalls, hslices⟩ := h
  have hlengths : slices.map List.length =
      (calls.map (·.metadata)).map fun metadata => metadata.eventLen.toNat := by
    rw [← hcalls, List.map_map]
    exact List.map_congr_left fun slice hslice => (hslices slice hslice).2.symm
  rw [List.length_flatten, hlengths, List.map_map]
  rfl

theorem CoveredBy.long {bytes : List UInt8} {calls : List EventCall} (h : CoveredBy bytes calls)
    {call : EventCall} (hcall : call ∈ calls) :
    metadataSize ≤ call.metadata.eventLen.toNat := by
  obtain ⟨slices, -, hcalls, hslices⟩ := h
  obtain ⟨slice, hslice, hmetadata⟩ : ∃ slice ∈ slices, decodeMetadata slice = call.metadata := by
    rw [← List.mem_map, hcalls]
    exact List.mem_map_of_mem hcall
  rw [← hmetadata, (hslices slice hslice).2]
  exact (hslices slice hslice).1

/-- A walk over long enough events to the end covers the bytes. -/
theorem Walk.covers {k : PidfdKernel} {bytes : List UInt8} {calls : List EventCall}
    (h : Walk k bytes calls [])
    (hlong : ∀ call ∈ calls, metadataSize ≤ call.metadata.eventLen.toNat) :
    CoveredBy bytes calls := by
  induction calls generalizing bytes with
  | nil =>
    cases h
    exact ⟨[], rfl, rfl, nofun⟩
  | cons call calls ih =>
    cases h with
    | event haccepts hwalk =>
      obtain ⟨slices, hflatten, hcalls, hslices⟩ :=
        ih hwalk fun other hother => hlong other (List.mem_cons_of_mem _ hother)
      have hlen := hlong call List.mem_cons_self
      have hmetadata : decodeMetadata (bytes.take call.metadata.eventLen.toNat) = call.metadata := by
        rw [decodeMetadata_take hlen, haccepts.metadata]
      have htake : (bytes.take call.metadata.eventLen.toNat).length =
          call.metadata.eventLen.toNat := by
        rw [List.length_take, Nat.min_eq_left haccepts.fits]
      refine ⟨bytes.take call.metadata.eventLen.toNat :: slices, ?_, ?_, ?_⟩
      · rw [List.flatten_cons, hflatten, List.take_append_drop]
      · rw [List.map_cons, List.map_cons, hcalls, hmetadata]
      · intro slice hslice
        obtain rfl | hslice := List.mem_cons.mp hslice
        · rw [hmetadata, htake]
          exact ⟨hlen, rfl⟩
        · exact hslices slice hslice

theorem nothingSkipped_nil {k : PidfdKernel} : NothingSkipped k [] := by
  intro calls rest hwalk
  cases hwalk with
  | here =>
    refine ⟨fun _ => rfl, fun hzero => absurd hzero.room (by decide), ?_⟩
    intro _ call hcall
    cases hcall
  | event haccepts _ => exact absurd haccepts.room (by decide)

theorem nothingSkipped_event {k : PidfdKernel} {bytes : List UInt8}
    (hlong : metadataSize ≤ (decodeMetadata bytes).eventLen.toNat)
    (hfits : (decodeMetadata bytes).eventLen.toNat ≤ bytes.length)
    (hrest : NothingSkipped k (bytes.drop (decodeMetadata bytes).eventLen.toNat)) :
    NothingSkipped k bytes := by
  intro calls rest hwalk
  cases hwalk with
  | here =>
    refine ⟨fun hfragment => ?_, fun hzero => ?_, ?_⟩
    · exact absurd (hlong.trans hfits) (Nat.not_le.mpr hfragment)
    · rw [hzero.zero] at hlong
      exact absurd hlong (by decide)
    · intro _ call hcall
      cases hcall
  | @event _ _ call calls haccepts hwalk =>
    rw [haccepts.metadata] at hwalk
    obtain ⟨hfragment, hzero, hcalls⟩ := hrest calls rest hwalk
    refine ⟨hfragment, hzero, ?_⟩
    intro hend other hother
    rcases List.mem_cons.mp hother with rfl | hother
    · rwa [haccepts.metadata]
    · exact hcalls hend other hother

theorem deliver_ok {ε : Type} {handleEvent : EventHandler ε}
    (hok : ∀ made call, handleEvent made call = .ok ()) (made calls : List EventCall) :
    deliver handleEvent made calls = (.ok (), made ++ calls) := by
  induction calls generalizing made with
  | nil => rw [deliver, List.append_nil]
  | cons call calls ih =>
    rw [deliver, hok]
    dsimp only
    rw [ih, List.append_assoc, List.singleton_append]

/-- With a handler that always succeeds, a malformed buffer is accepted exactly
when some of its bytes are walked into that are silently skipped. -/
theorem neverSilent_iff {ε : Type} (k : PidfdKernel) (handleEvent : EventHandler ε)
    (hok : ∀ made call, handleEvent made call = .ok ()) (buffer : EventBuffer) :
    NeverSilent k handleEvent buffer ↔ NothingSkipped k buffer.bytes := by
  have hrun : ∀ calls rest, Walk k buffer.bytes calls rest → IsFragment rest ∨ IsZeroLength rest →
      processEventBuffer k handleEvent buffer = .ok (.ok (), calls) := by
    intro calls rest hwalk hend
    rw [processEventBuffer, processEvents_walk buffer.small (by rwa [List.drop_zero]) hend
      (Nat.zero_le _) (by omega), deliver_ok hok, List.nil_append]
  obtain ⟨result, calls', hresult, hwalked⟩ := @processEvents_result ε k handleEvent buffer.bytes
    buffer.small (buffer.bytes.length + 1) 0 [] (Nat.zero_le _) (by omega)
  constructor
  · intro h calls rest hwalk
    -- where the loop ends, the calls it made take up all the bytes
    have hdone : IsFragment rest ∨ IsZeroLength rest →
        rest = [] ∧ ∀ call ∈ calls, metadataSize ≤ call.metadata.eventLen.toNat := by
      intro hend
      have hcovered := h.covered calls (hrun calls rest hwalk hend)
      have hlength := hwalk.length
      rw [hcovered.length] at hlength
      exact ⟨List.eq_nil_of_length_eq_zero (by omega), fun _ => hcovered.long⟩
    refine ⟨fun hfragment => (hdone (.inl hfragment)).1, ?_, ?_⟩
    · intro hzero
      have hroom := hzero.room
      rw [(hdone (.inr hzero)).1] at hroom
      exact absurd hroom (by decide)
    · rintro rfl
      exact (hdone (.inl (show 0 < metadataSize by decide))).2
  · intro h
    refine ⟨⟨_, hresult⟩, ?_⟩
    intro calls hcalls
    obtain ⟨hok', hsame⟩ := Prod.mk.inj (Except.ok.inj (hresult.symm.trans hcalls))
    obtain rfl : calls' = calls := hsame
    obtain ⟨rest, hwalk, hend⟩ := hwalked hok'
    rw [List.drop_zero] at hwalk
    obtain ⟨hfragment, hzero, hlong⟩ := h calls' rest hwalk
    obtain rfl : rest = [] := hfragment (hend.resolve_right hzero)
    exact hwalk.covers (hlong rfl)

def noPidfds : PidfdKernel where
  fstatfs := fun _ => .error "EBADF"
  fstat := fun _ => .error "EBADF"
  close := fun _ => false

def acceptAll : EventHandler Unit := fun _ _ => .ok ()

/-- An event without information records. -/
def plainEvent (mask : UInt8) : List UInt8 :=
  [24, 0, 0, 0, 3, 0, 24, 0, mask] ++ List.replicate 15 0

/-- A file is opened and closed again. -/
def openThenClose : List UInt8 := plainEvent 0x20 ++ plainEvent 0x10

theorem neverSilent_openThenClose : NeverSilent noPidfds acceptAll ⟨openThenClose, by decide⟩ :=
  (neverSilent_iff noPidfds acceptAll (fun _ _ => rfl) ⟨openThenClose, by decide⟩).mpr
    (nothingSkipped_event (by decide) (by decide)
      (nothingSkipped_event (by decide) (by decide) nothingSkipped_nil))

/-- A header of the supported version that states no length. -/
def zeroLengthHeader : List UInt8 := [0, 0, 0, 0, 3, 0, 24, 0] ++ List.replicate 16 0

theorem zeroLength_accepted :
    ¬ ∀ (k : PidfdKernel) (handleEvent : EventHandler Unit) (buffer : EventBuffer),
      (∀ made call, handleEvent made call = .ok ()) → NeverSilent k handleEvent buffer := by
  intro h
  have hsilent := h noPidfds acceptAll ⟨zeroLengthHeader, by decide⟩ fun _ _ => rfl
  have hzero : IsZeroLength zeroLengthHeader := ⟨by decide, by decide, by decide⟩
  have hrun : processEventBuffer noPidfds acceptAll ⟨zeroLengthHeader, by decide⟩ =
      .ok (.ok (), []) :=
    processEvents_zeroLength (by decide) hzero
  have hlength := (hsilent.covered [] hrun).length
  exact absurd hlength (by decide)

end ConfigGuard

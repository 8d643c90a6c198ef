import ConfigGuard.Fanotify.Buffer

/-!
# A buffer is a batch of events

The loop of `process_event_buffer` taken apart at the calls of its handler. What a
buffer calls its handler with, and what it ends with, do not depend on the handler:
the loop over the buffer does what reading all events first and handling them
afterwards does.
-/

namespace ConfigGuard

/-- What a buffer ends with goes for handlers with errors of any kind. -/
def BufferError.lift {ε : Type} : BufferError Empty → BufferError ε
  | event error => event error
  | lengthOverflow => lengthOverflow
  | invalidLength eventLen metadataLen remaining => invalidLength eventLen metadataLen remaining
  | handling error => error.elim

/-- A turn ends the loop, or comes to the call of the handler. -/
inductive BufferTurn where
  | ended (result : Except (BufferError Empty) Unit)
  | called (call : EventCall) (eventEnd : Nat)

/-- The body of the loop up to the call of `handle_event`. -/
def bufferTurn (k : PidfdKernel) (buffer : List UInt8) (offset : Nat) : Except Fault BufferTurn :=
  if offset + metadataSize ≤ buffer.length then
    match readAt buffer offset metadataSize with
    | .error fault => .error fault
    | .ok bs =>
      let metadata := decodeMetadata bs
      match validateMetadataVersion metadata with
      | .error error => .ok (.ended (.error (.event error)))
      | .ok _ =>
        if metadata.eventLen = 0 then .ok (.ended (.ok ()))
        else
          let eventLen := metadata.eventLen.toNat
          let eventEnd := offset + eventLen
          if eventEnd ≥ 2 ^ 64 then .ok (.ended (.error .lengthOverflow))
          else if eventLen < metadata.metadataLen.toNat ∨ eventEnd > buffer.length then
            .ok (.ended (.error (.invalidLength eventLen metadata.metadataLen.toNat
              (buffer.length - offset))))
          else
            match processGeneration k ((buffer.drop offset).take eventLen) metadata with
            | .error fault => .error fault
            | .ok (.error error) => .ok (.ended (.error (.event error)))
            | .ok (.ok generation) => .ok (.called ⟨metadata, generation⟩ eventEnd)
  else .ok (.ended (.ok ()))

/-- The handler and the turns after this one. -/
def afterTurn {ε : Type} (k : PidfdKernel) (handleEvent : EventHandler ε) (buffer : List UInt8)
    (fuel : Nat) (calls : List EventCall) :
    Except Fault BufferTurn → Except Fault (Except (BufferError ε) Unit × List EventCall)
  | .error fault => .error fault
  | .ok (.ended result) => .ok (result.mapError .lift, calls)
  | .ok (.called call eventEnd) =>
    match handleEvent calls call with
    | .error error => .ok (.error (.handling error), calls ++ [call])
    | .ok _ => processEvents k handleEvent buffer fuel eventEnd (calls ++ [call])

section

variable {k : PidfdKernel} {buffer : List UInt8} {fuel offset : Nat}

theorem processEvents_turn {ε : Type} (handleEvent : EventHandler ε) (calls : List EventCall) :
    processEvents k handleEvent buffer (fuel + 1) offset calls =
      afterTurn k handleEvent buffer fuel calls (bufferTurn k buffer offset) := by
  rw [processEvents, bufferTurn]
  split
  · cases readAt buffer offset metadataSize with
    | error fault => rfl
    | ok bs =>
      dsimp only
      cases validateMetadataVersion (decodeMetadata bs) with
      | error error => rfl
      | ok _ =>
        dsimp only
        split
        · rfl
        · split
          · rfl
          · split
            · rfl
            · cases processGeneration k ((buffer.drop offset).take
                (decodeMetadata bs).eventLen.toNat) (decodeMetadata bs) with
              | error fault => rfl
              | ok result => cases result <;> rfl
  · rfl

/-- A turn does not fault, and calls the handler with what it accepts. -/
theorem bufferTurn_cases (k : PidfdKernel) (buffer : List UInt8) (offset : Nat) :
    (∃ result, bufferTurn k buffer offset = .ok (.ended result)) ∨
      ∃ call, Accepts k (buffer.drop offset) call ∧
        bufferTurn k buffer offset =
          .ok (.called call (offset + call.metadata.eventLen.toNat)) := by
  rw [bufferTurn]
  split
  · rename_i hroom
    rw [readAt_of_le hroom]
    dsimp only
    rw [decodeMetadata_take le_rfl]
    generalize hmetadata : decodeMetadata (buffer.drop offset) = metadata
    cases hversion : validateMetadataVersion metadata with
    | error error => exact .inl ⟨_, rfl⟩
    | ok _ =>
      dsimp only
      split
      · exact .inl ⟨_, rfl⟩
      · rename_i hadvances
        split
        · exact .inl ⟨_, rfl⟩
        · split
          · exact .inl ⟨_, rfl⟩
          · rename_i hlengths
            obtain ⟨result, hresult⟩ :=
              processGeneration_ok k ((buffer.drop offset).take metadata.eventLen.toNat) metadata
            rw [hresult]
            cases result with
            | error error => exact .inl ⟨_, rfl⟩
            | ok generation =>
              refine .inr ⟨⟨metadata, generation⟩, ⟨?_, hmetadata.symm, ?_, hadvances, ?_, ?_,
                hresult⟩, rfl⟩
              · rw [List.length_drop]
                omega
              · by_contra hvers
                simp [validateMetadataVersion, hvers] at hversion
              · show metadata.metadataLen.toNat ≤ metadata.eventLen.toNat
                omega
              · show metadata.eventLen.toNat ≤ _
                rw [List.length_drop]
                omega
  · exact .inl ⟨_, rfl⟩

end

/-- After the last call comes what the buffer ends with. -/
def deliverThen {ε : Type} (handleEvent : EventHandler ε) (tail : Except (BufferError Empty) Unit)
    (made calls : List EventCall) : Except (BufferError ε) Unit × List EventCall :=
  match deliver handleEvent made calls with
  | (.ok _, made) => (tail.mapError .lift, made)
  | (.error error, made) => (.error error, made)

section

variable {ε : Type} {handleEvent : EventHandler ε} {tail : Except (BufferError Empty) Unit}
  {made : List EventCall} {call : EventCall}

theorem deliverThen_failed {error : ε} (h : handleEvent made call = .error error)
    (calls : List EventCall) :
    deliverThen handleEvent tail made (call :: calls) =
      (.error (.handling error), made ++ [call]) := by
  rw [deliverThen, deliver, h]

theorem deliverThen_handled (h : handleEvent made call = .ok ()) (calls : List EventCall) :
    deliverThen handleEvent tail made (call :: calls) =
      deliverThen handleEvent tail (made ++ [call]) calls := by
  rw [deliverThen, deliver, h, deliverThen]

end

/-- The loop from one place of a buffer on, for every handler. -/
def Batches (k : PidfdKernel) (buffer : List UInt8) (fuel offset : Nat) (calls : List EventCall)
    (tail : Except (BufferError Empty) Unit) : Prop :=
  ∀ (ε : Type) (handleEvent : EventHandler ε) (made : List EventCall),
    processEvents k handleEvent buffer fuel offset made =
      .ok (deliverThen handleEvent tail made calls)

/-- The call is what the loop makes of the bytes at some place. -/
def AcceptedIn (k : PidfdKernel) (buffer : List UInt8) (call : EventCall) : Prop :=
  ∃ offset, Accepts k (buffer.drop offset) call

/-- What is left of a buffer from an offset on: the calls to come, and what it ends with. -/
def batchFrom (k : PidfdKernel) (buffer : List UInt8) :
    Nat → Nat → List EventCall × Except (BufferError Empty) Unit
  | 0, _ => ([], .ok ())
  | fuel + 1, offset =>
    match bufferTurn k buffer offset with
    | .error _ => ([], .ok ())
    | .ok (.ended result) => ([], result)
    | .ok (.called call eventEnd) =>
      let (calls, result) := batchFrom k buffer fuel eventEnd
      (call :: calls, result)

section

variable {k : PidfdKernel} {buffer : List UInt8} {fuel offset : Nat}

theorem batchFrom_ended {result : Except (BufferError Empty) Unit}
    (h : bufferTurn k buffer offset = .ok (.ended result)) :
    batchFrom k buffer (fuel + 1) offset = ([], result) := by
  rw [batchFrom, h]

theorem batchFrom_called {call : EventCall} {eventEnd : Nat}
    (h : bufferTurn k buffer offset = .ok (.called call eventEnd)) :
    batchFrom k buffer (fuel + 1) offset = (call :: (batchFrom k buffer fuel eventEnd).1,
      (batchFrom k buffer fuel eventEnd).2) := by
  rw [batchFrom, h]

theorem batches_batchFrom (k : PidfdKernel) (hoffset : offset ≤ buffer.length)
    (hfuel : buffer.length < fuel + offset) :
    Batches k buffer fuel offset (batchFrom k buffer fuel offset).1
      (batchFrom k buffer fuel offset).2 := by
  induction fuel generalizing offset with
  | zero => omega
  | succ fuel ih =>
    intro ε handleEvent made
    rw [processEvents_turn]
    rcases bufferTurn_cases k buffer offset with ⟨result, hturn⟩ | ⟨call, haccepts, hturn⟩
    · rw [batchFrom_ended hturn, hturn]
      rfl
    · have hpos := haccepts.eventLen_pos
      have hfits := haccepts.fits
      rw [List.length_drop] at hfits
      rw [batchFrom_called hturn, hturn, afterTurn]
      cases hhandle : handleEvent made call with
      | error error => rw [deliverThen_failed hhandle]
      | ok _ =>
        rw [deliverThen_handled hhandle]
        exact ih (by omega) (by omega) ε handleEvent _

theorem accepted_batchFrom {call : EventCall} (h : call ∈ (batchFrom k buffer fuel offset).1) :
    AcceptedIn k buffer call := by
  induction fuel generalizing offset with
  | zero => cases h
  | succ fuel ih =>
    rcases bufferTurn_cases k buffer offset with ⟨result, hturn⟩ | ⟨first, haccepts, hturn⟩
    · rw [batchFrom_ended hturn] at h
      cases h
    · rw [batchFrom_called hturn] at h
      rcases List.mem_cons.mp h with rfl | h
      · exact ⟨offset, haccepts⟩
      · exact ih h

end

/-- The calls a buffer makes as long as they succeed, and what it ends with. -/
def EventBuffer.batch (buffer : EventBuffer) (k : PidfdKernel) :
    List EventCall × Except (BufferError Empty) Unit :=
  batchFrom k buffer.bytes (buffer.bytes.length + 1) 0

theorem processEventBuffer_batch {ε : Type} (k : PidfdKernel) (handleEvent : EventHandler ε)
    (buffer : EventBuffer) :
    processEventBuffer k handleEvent buffer =
      .ok (deliverThen handleEvent (buffer.batch k).2 [] (buffer.batch k).1) :=
  batches_batchFrom k (Nat.zero_le _) (Nat.lt_succ_self _) ε handleEvent []

/-- A buffer that was read, and what the kernel answers about the pidfds in it. -/
structure FilledBuffer where
  buffer : EventBuffer
  kernel : PidfdKernel

def FilledBuffer.batch (filled : FilledBuffer) :
    List EventCall × Except (BufferError Empty) Unit :=
  filled.buffer.batch filled.kernel

/-- What a buffer ends with, as a loop that is given its events has it. -/
def batchTail (tail : Except (BufferError Empty) Unit) : Except String Unit :=
  tail.mapError (BufferError.message Empty.elim)

/-- What `read` returns, and what it has filled in. -/
inductive ReadResult where
  | failed (error : String)
  | filled (filled : FilledBuffer)

inductive ReadError (ε : Type) where
  | reading (error : String)
  | buffer (error : BufferError ε)

section Stateful

variable {σ ε : Type} (handleEvent : σ → EventCall → Except ε Unit × σ)

/-- The state after these calls. -/
def stateAfter (s : σ) (calls : List EventCall) : σ :=
  calls.foldl (fun s call => (handleEvent s call).2) s

/-- What the handler answers after the calls before. -/
def answersFrom (s : σ) : EventHandler ε := fun made call =>
  (handleEvent (stateAfter handleEvent s made) call).1

/-- `read_event_batch`, with the state its handler is left in. -/
def readEventBatch (s : σ) :
    ReadResult → Except Fault (Except (ReadError ε) Unit × σ)
  | .failed error => .ok (.error (.reading error), s)
  | .filled filled =>
    match processEventBuffer filled.kernel (answersFrom handleEvent s) filled.buffer with
    | .error fault => .error fault
    | .ok (result, calls) => .ok (result.mapError .buffer, stateAfter handleEvent s calls)

/-- One call after the other, up to the first error. -/
def handleAll : σ → List EventCall → Except ε Unit × σ
  | s, [] => (.ok (), s)
  | s, call :: calls =>
    match handleEvent s call with
    | (.error error, s) => (.error error, s)
    | (.ok _, s) => handleAll s calls

/-- After the calls comes what the buffer ends with. -/
def endingWith (tail : Except (BufferError Empty) Unit) :
    Except ε Unit × σ → Except (ReadError ε) Unit × σ
  | (.error error, s) => (.error (.buffer (.handling error)), s)
  | (.ok _, s) => (tail.mapError fun error => .buffer error.lift, s)

theorem deliver_answersFrom (s : σ) (made calls : List EventCall) :
    (deliver (answersFrom handleEvent s) made calls).1 =
        (handleAll handleEvent (stateAfter handleEvent s made) calls).1.mapError .handling ∧
      stateAfter handleEvent s (deliver (answersFrom handleEvent s) made calls).2 =
        (handleAll handleEvent (stateAfter handleEvent s made) calls).2 := by
  induction calls generalizing made with
  | nil => exact ⟨rfl, rfl⟩
  | cons call calls ih =>
    have hafter : stateAfter handleEvent s (made ++ [call]) =
        (handleEvent (stateAfter handleEvent s made) call).2 := by
      rw [stateAfter, List.foldl_append]
      rfl
    have hih := ih (made ++ [call])
    rw [hafter] at hih
    rw [deliver, handleAll, answersFrom]
    cases hhandle : handleEvent (stateAfter handleEvent s made) call with
    | mk result next =>
      rw [hhandle] at hih hafter
      cases result with
      | error error => exact ⟨rfl, hafter⟩
      | ok _ => exact hih

/-- A read that succeeds is a batch: its events are handled one after the other, and after the
last of them comes what the buffer ends with. -/
theorem readEventBatch_batch (filled : FilledBuffer) (s : σ) :
    readEventBatch handleEvent s (.filled filled) =
      .ok (endingWith filled.batch.2 (handleAll handleEvent s filled.batch.1)) := by
  obtain ⟨hresult, hstate⟩ := deliver_answersFrom handleEvent s [] filled.batch.1
  rw [readEventBatch, processEventBuffer_batch, ← FilledBuffer.batch, deliverThen]
  cases hdeliver : deliver (answersFrom handleEvent s) [] filled.batch.1 with
  | mk result made =>
    rw [hdeliver] at hresult hstate
    dsimp only at hresult hstate
    rw [show stateAfter handleEvent s [] = s from rfl] at hresult hstate
    cases hall : handleAll handleEvent s filled.batch.1 with
    | mk outcome last =>
      rw [hall] at hresult hstate
      dsimp only at hresult hstate
      subst hresult hstate
      cases outcome with
      | error error => rfl
      | ok _ => cases filled.batch.2 <;> rfl

end Stateful

end ConfigGuard

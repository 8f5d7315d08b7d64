import GroupAgent.Core.Frontiers

/-!
# Saved implies loadable

`to_record` (`checkpoint.rs:457-527`) writes a request and `from_record` (152-228), with frontier
validation (`runtime.rs:1736-1822`), reads a record. They state their constraints independently.
`CheckpointRequest.WellFormed` is what both ask for.

* `toRecord_iff`, `fromRecord_iff`: when a request is recorded, and when a record is read, and as
  what.
* `toRecord_fromRecord`: a well formed request is recorded, and its record is read back as it was.
* `Recorded.resolved`: what a run saves is validated, to the indices the run had.

Results:
* **`codec_agreement`** puts the first two together: through the record or directly, a request
  becomes the same checkpoint.
* **`saved_loadable`** says of every request of every call that it is recorded, read back and
  validated.

Premise: the codec decodes what it has encoded. What a codec refuses to encode is not recorded, and
that is an error of its own.
-/

namespace GroupAgent.Core

open GroupAgent.Lib

variable {ν ρ τ π : Type}

/-! ## Records -/

/-- The form both the record and the frontier validation ask of a request. -/
structure CheckpointRequest.WellFormed (r : CheckpointRequest τ π) : Prop where
  completed : r.completed = r.nextFrontier.isEmpty
  interrupt : ∀ interrupt ∈ r.interrupt, r.nextFrontier = [interrupt.nodePath]
  steps_le : r.step ≤ usizeMax
  superstep_le : r.superstep ≤ usizeMax

/-- The codec encodes this snapshot and this payload, under one encoding, and decodes what it
encoded. -/
structure CheckpointCodec.Carries (codec : CheckpointCodec τ π) (snapshot : τ)
    (payload : Option π) : Prop where
  snapshot : ∃ bytes, codec.encodeSnapshot snapshot = .ok bytes ∧
    codec.decodeSnapshot bytes = .ok snapshot
  payload : ∀ p ∈ payload, ∃ value, codec.encodeInterrupt p = .ok value ∧
    value.descriptor.encoding = codec.snapshotDescriptor.encoding ∧
    codec.decodeInterrupt value = .ok p

theorem tryFromParts_ok {parts : CheckpointRecordParts} (h : parts.defect = none) :
    CheckpointRecord.tryFromParts parts = .ok ⟨parts, h⟩ := by
  unfold CheckpointRecord.tryFromParts
  split
  · rename_i error herror
    rw [h] at herror
    cases herror
  · rfl

theorem tryFromParts_sound {parts : CheckpointRecordParts} {record : CheckpointRecord}
    (h : CheckpointRecord.tryFromParts parts = .ok record) : parts.defect = none := by
  unfold CheckpointRecord.tryFromParts at h
  split at h
  · cases h
  · assumption

theorem runtimeCounter_durable {name : String} {value : Nat} (h : value ≤ usizeMax) :
    runtimeCounter name (UInt64.ofNat value) = .ok value := by
  have hlt : value < 2 ^ 64 := by
    unfold usizeMax at h
    omega
  unfold runtimeCounter
  rw [UInt64.toNat_ofNat_of_lt' hlt, if_pos h]

/-- Interrupt metadata is read back as it was. -/
theorem recordInterrupt_checkpointInterrupt {codec : CheckpointCodec τ π}
    {interrupt : CheckpointInterrupt π}
    (h : ∃ value, codec.encodeInterrupt interrupt.payload = .ok value ∧
      value.descriptor.encoding = codec.snapshotDescriptor.encoding ∧
      codec.decodeInterrupt value = .ok interrupt.payload) :
    ∃ r, codec.recordInterrupt interrupt = .ok r ∧ r.nodePath = interrupt.nodePath ∧
      codec.checkpointInterrupt r = .ok interrupt := by
  obtain ⟨value, hencode, hencoding, hdecode⟩ := h
  refine ⟨⟨interrupt.id, interrupt.nodePath, value⟩, ?_, rfl, ?_⟩
  · simp only [CheckpointCodec.recordInterrupt, hencode, hencoding, if_true]
  · simp only [CheckpointCodec.checkpointInterrupt, hencoding, ne_eq, not_true_eq_false, if_false,
      hdecode]

/-- The record of a well formed request has no defect. -/
theorem defect_of_wellFormed {r : CheckpointRequest τ π} (hr : r.WellFormed)
    {p : CheckpointRecordParts} (hfrontier : p.nextFrontier = r.nextFrontier)
    (hcompleted : p.completed = r.completed)
    (hinterrupt : p.interrupt.map CheckpointRecordInterrupt.nodePath =
      r.interrupt.map CheckpointInterrupt.nodePath) : p.defect = none := by
  unfold CheckpointRecordParts.defect
  rw [hfrontier, hcompleted, hr.completed]
  cases hi : p.interrupt with
  | none => cases r.nextFrontier <;> simp
  | some interrupt =>
    rw [hi] at hinterrupt
    cases hr' : r.interrupt with
    | none =>
      rw [hr'] at hinterrupt
      cases hinterrupt
    | some original =>
      rw [hr'] at hinterrupt
      have hpath : interrupt.nodePath = original.nodePath := Option.some.inj hinterrupt
      rw [hr.interrupt original hr']
      simp [hpath]

/-- **A well formed request is recorded, and its record is read back as it was.** -/
theorem toRecord_fromRecord {r : CheckpointRequest τ π} (hr : r.WellFormed)
    {codec : CheckpointCodec τ π}
    (hc : codec.Carries r.snapshot (r.interrupt.map CheckpointInterrupt.payload)) :
    ∃ record, r.toRecord codec = .ok record ∧
      Checkpoint.fromRecord record codec = .ok r.intoCheckpoint := by
  obtain ⟨bytes, hencode, hdecode⟩ := hc.snapshot
  have hinterrupt : ∃ interrupt : Option CheckpointRecordInterrupt,
      (r.interrupt.mapM fun i => (codec.recordInterrupt i).mapError CheckpointEncodingError.interrupt) =
        .ok interrupt ∧
      interrupt.map CheckpointRecordInterrupt.nodePath =
        r.interrupt.map CheckpointInterrupt.nodePath ∧
      interrupt.mapM codec.checkpointInterrupt = .ok r.interrupt := by
    cases hi : r.interrupt with
    | none => exact ⟨none, rfl, rfl, rfl⟩
    | some original =>
      obtain ⟨value, hrecord, hpath, hback⟩ := recordInterrupt_checkpointInterrupt
        (hc.payload original.payload (by rw [hi]; rfl))
      refine ⟨some value, ?_, by simp [hpath], ?_⟩
      · simp only [Option.mapM_some, hrecord]
        rfl
      · simp only [Option.mapM_some, hback]
        rfl
  obtain ⟨interrupt, hrecorded, hpaths, hback⟩ := hinterrupt
  have hsuperstep : durableCounter "superstep" r.superstep = .ok (UInt64.ofNat r.superstep) :=
    if_pos hr.superstep_le
  have hstep : durableCounter "step" r.step = .ok (UInt64.ofNat r.step) := if_pos hr.steps_le
  have hdefect := defect_of_wellFormed hr (p :=
    { formatVersion := CheckpointFormatVersion.CURRENT
      checkpointId := r.checkpointId
      threadId := r.threadId
      runId := r.runId
      parentId := r.expectedParent
      graphVersion := r.graphVersion
      superstep := UInt64.ofNat r.superstep
      step := UInt64.ofNat r.step
      snapshot := ⟨codec.snapshotDescriptor, bytes⟩
      nextFrontier := r.nextFrontier
      completed := r.completed
      interrupt }) rfl rfl hpaths
  refine ⟨⟨_, hdefect⟩, ?_, ?_⟩
  · unfold CheckpointRequest.toRecord
    rw [hencode, hrecorded, hsuperstep, hstep]
    simp only [Except.mapError, bind, Except.bind]
    rw [tryFromParts_ok hdefect]
  · unfold Checkpoint.fromRecord
    simp only [ne_eq, not_true_eq_false, if_false, or_self, hdecode, hback,
      runtimeCounter_durable hr.superstep_le, runtimeCounter_durable hr.steps_le]
    rfl

/-! ## Agreement -/

/-- The codec decodes whatever it encodes. -/
structure CheckpointCodec.Lawful (codec : CheckpointCodec τ π) : Prop where
  snapshot : ∀ value bytes, codec.encodeSnapshot value = .ok bytes →
    codec.decodeSnapshot bytes = .ok value
  payload : ∀ payload value, codec.encodeInterrupt payload = .ok value →
    codec.decodeInterrupt value = .ok payload

/-- The codec encodes this snapshot and this payload, under one encoding. -/
structure CheckpointCodec.Encodes (codec : CheckpointCodec τ π) (snapshot : τ)
    (payload : Option π) : Prop where
  snapshot : ∃ bytes, codec.encodeSnapshot snapshot = .ok bytes
  payload : ∀ p ∈ payload, ∃ value, codec.encodeInterrupt p = .ok value ∧
    value.descriptor.encoding = codec.snapshotDescriptor.encoding

theorem CheckpointCodec.Encodes.carries {codec : CheckpointCodec τ π} (hcodec : codec.Lawful)
    {snapshot : τ} {payload : Option π} (h : codec.Encodes snapshot payload) :
    codec.Carries snapshot payload where
  snapshot := by
    obtain ⟨bytes, hbytes⟩ := h.snapshot
    exact ⟨bytes, hbytes, hcodec.snapshot snapshot bytes hbytes⟩
  payload p hp := by
    obtain ⟨value, hvalue, hencoding⟩ := h.payload p hp
    exact ⟨value, hvalue, hencoding, hcodec.payload p value hvalue⟩

theorem durableCounter_ok {name : String} {value : Nat} {counter : UInt64}
    (h : durableCounter name value = .ok counter) : value ≤ usizeMax := by
  unfold durableCounter at h
  by_cases hle : value ≤ usizeMax
  · exact hle
  · rw [if_neg hle] at h
    cases h

theorem recordInterrupt_ok {codec : CheckpointCodec τ π} {interrupt : CheckpointInterrupt π}
    {r : CheckpointRecordInterrupt} (h : codec.recordInterrupt interrupt = .ok r) :
    r.nodePath = interrupt.nodePath ∧ ∃ value, codec.encodeInterrupt interrupt.payload = .ok value ∧
      value.descriptor.encoding = codec.snapshotDescriptor.encoding := by
  unfold CheckpointCodec.recordInterrupt at h
  cases hencode : codec.encodeInterrupt interrupt.payload with
  | error error =>
    rw [hencode] at h
    cases h
  | ok value =>
    rw [hencode] at h
    by_cases hencoding : value.descriptor.encoding = codec.snapshotDescriptor.encoding
    · simp only [hencoding, if_true] at h
      cases h
      exact ⟨rfl, value, rfl, hencoding⟩
    · simp only [hencoding, if_false] at h
      cases h

/-- The form of a record with no defect. -/
theorem defect_eq_none {p : CheckpointRecordParts} (h : p.defect = none) :
    p.completed = p.nextFrontier.isEmpty ∧
      ∀ interrupt ∈ p.interrupt, p.nextFrontier = [interrupt.nodePath] := by
  unfold CheckpointRecordParts.defect at h
  rcases hf : p.nextFrontier with _ | ⟨path, _ | ⟨path', rest⟩⟩ <;>
    cases hc : p.completed <;> cases hi : p.interrupt <;> simp_all

/-- A request is recorded when it is well formed and the codec encodes what it holds. -/
theorem toRecord_iff {r : CheckpointRequest τ π} {codec : CheckpointCodec τ π}
    (hcodec : codec.Lawful) : (∃ record, r.toRecord codec = .ok record) ↔
      r.WellFormed ∧ codec.Encodes r.snapshot (r.interrupt.map CheckpointInterrupt.payload) := by
  constructor
  · rintro ⟨record, h⟩
    unfold CheckpointRequest.toRecord at h
    obtain ⟨bytes, hbytes, h⟩ := bind_eq_ok.mp h
    obtain ⟨interrupt, hinterrupt, h⟩ := bind_eq_ok.mp h
    obtain ⟨superstep, hsuperstep, h⟩ := bind_eq_ok.mp h
    obtain ⟨step, hstep, h⟩ := bind_eq_ok.mp h
    have hdefect := defect_eq_none (tryFromParts_sound (mapError_eq_ok.mp h))
    have hencodes : ∀ original ∈ r.interrupt, r.nextFrontier = [original.nodePath] ∧
        ∃ value, codec.encodeInterrupt original.payload = .ok value ∧
          value.descriptor.encoding = codec.snapshotDescriptor.encoding := by
      intro original horiginal
      rw [Option.mem_def.mp horiginal, Option.mapM_some] at hinterrupt
      obtain ⟨value, hvalue, hsome⟩ := map_eq_ok.mp hinterrupt
      obtain ⟨hpath, hvalue⟩ := recordInterrupt_ok (mapError_eq_ok.mp hvalue)
      exact ⟨(hdefect.2 value hsome.symm).trans (by rw [hpath]), hvalue⟩
    refine ⟨⟨hdefect.1, fun original ho => (hencodes original ho).1, durableCounter_ok hstep,
      durableCounter_ok hsuperstep⟩, ⟨bytes, mapError_eq_ok.mp hbytes⟩, fun p hp => ?_⟩
    obtain ⟨original, horiginal, rfl⟩ := Option.map_eq_some_iff.mp hp
    exact (hencodes original horiginal).2
  · rintro ⟨hform, hencodes⟩
    obtain ⟨record, hrecord, -⟩ := toRecord_fromRecord hform (hencodes.carries hcodec)
    exact ⟨record, hrecord⟩

/-- What `from_record` compares: format, snapshot descriptor, interrupt encoding and counters. -/
structure CheckpointRecord.Matches (record : CheckpointRecord) (codec : CheckpointCodec τ π) :
    Prop where
  formatVersion : record.formatVersion = CheckpointFormatVersion.CURRENT
  descriptor : record.snapshot.descriptor = codec.snapshotDescriptor
  encoding : ∀ interrupt ∈ record.interrupt,
    interrupt.payload.descriptor.encoding = codec.snapshotDescriptor.encoding
  superstep_le : record.superstep.toNat ≤ usizeMax
  steps_le : record.step.toNat ≤ usizeMax

/-- The checkpoint has the record's fields, its snapshot and interrupt as the codec decodes them. -/
structure CheckpointRecord.Holds (record : CheckpointRecord) (codec : CheckpointCodec τ π)
    (checkpoint : Checkpoint τ π) : Prop where
  id : checkpoint.id = record.checkpointId
  threadId : checkpoint.threadId = record.threadId
  runId : checkpoint.runId = record.runId
  parentId : checkpoint.parentId = record.parentId
  graphVersion : checkpoint.graphVersion = record.graphVersion
  superstep : checkpoint.superstep = record.superstep.toNat
  step : checkpoint.step = record.step.toNat
  nextFrontier : checkpoint.nextFrontier = record.nextFrontier
  completed : checkpoint.completed = record.completed
  snapshot : codec.decodeSnapshot record.snapshot.bytes = .ok checkpoint.snapshot
  interrupt : Option.Rel (fun stored interrupt => interrupt.id = stored.id ∧
    interrupt.nodePath = stored.nodePath ∧
    codec.decodeInterrupt stored.payload = .ok interrupt.payload) record.interrupt checkpoint.interrupt

theorem CodecDescriptor.eq {d d' : CodecDescriptor} (hschema : d.schema = d'.schema)
    (hversion : d.schemaVersion = d'.schemaVersion) (hencoding : d.encoding = d'.encoding) :
    d = d' := by
  cases d
  cases d'
  simp only at hschema hversion hencoding
  rw [hschema, hversion, hencoding]

theorem checkpointInterrupt_iff {codec : CheckpointCodec τ π} {stored : CheckpointRecordInterrupt}
    {interrupt : CheckpointInterrupt π} : codec.checkpointInterrupt stored = .ok interrupt ↔
      stored.payload.descriptor.encoding = codec.snapshotDescriptor.encoding ∧
      interrupt.id = stored.id ∧ interrupt.nodePath = stored.nodePath ∧
      codec.decodeInterrupt stored.payload = .ok interrupt.payload := by
  unfold CheckpointCodec.checkpointInterrupt
  by_cases hencoding : stored.payload.descriptor.encoding = codec.snapshotDescriptor.encoding
  · cases hdecode : codec.decodeInterrupt stored.payload with
    | error error => simp [hencoding]
    | ok payload =>
      obtain ⟨id, nodePath, payload'⟩ := interrupt
      simp only [hencoding, ne_eq, not_true_eq_false, if_false, Except.ok.injEq,
        CheckpointInterrupt.mk.injEq, true_and]
      constructor
      · rintro ⟨rfl, rfl, rfl⟩
        exact ⟨rfl, rfl, rfl⟩
      · rintro ⟨rfl, rfl, rfl⟩
        exact ⟨rfl, rfl, rfl⟩
  · simp [hencoding]

theorem runtimeCounter_iff {name : String} {counter : UInt64} {value : Nat} :
    runtimeCounter name counter = .ok value ↔ counter.toNat ≤ usizeMax ∧ value = counter.toNat := by
  unfold runtimeCounter
  by_cases h : counter.toNat ≤ usizeMax
  · simp [h, eq_comm]
  · simp [h]

/-- Optional interrupt metadata is read when its encoding is the codec's and its payload decodes. -/
theorem mapM_checkpointInterrupt {codec : CheckpointCodec τ π}
    {stored : Option CheckpointRecordInterrupt} {interrupt : Option (CheckpointInterrupt π)} :
    stored.mapM codec.checkpointInterrupt = .ok interrupt ↔
      (∀ s ∈ stored, s.payload.descriptor.encoding = codec.snapshotDescriptor.encoding) ∧
      Option.Rel (fun stored interrupt => interrupt.id = stored.id ∧
        interrupt.nodePath = stored.nodePath ∧
        codec.decodeInterrupt stored.payload = .ok interrupt.payload) stored interrupt := by
  cases stored with
  | none =>
    rw [Option.mapM_none]
    constructor
    · intro h
      cases h
      exact ⟨nofun, .none⟩
    · rintro ⟨-, ⟨⟩⟩
      rfl
  | some s =>
    rw [Option.mapM_some, map_eq_ok]
    constructor
    · rintro ⟨read, hread, rfl⟩
      obtain ⟨hencoding, hrest⟩ := checkpointInterrupt_iff.mp hread
      exact ⟨fun _ hs => Option.some.inj hs ▸ hencoding, .some hrest⟩
    · rintro ⟨hencoding, hrel⟩
      cases hrel with
      | some hrest => exact ⟨_, checkpointInterrupt_iff.mpr ⟨hencoding s rfl, hrest⟩, rfl⟩

/-- **A record is read exactly as the checkpoint it holds, or not at all.** -/
theorem fromRecord_iff {record : CheckpointRecord} {codec : CheckpointCodec τ π}
    {checkpoint : Checkpoint τ π} : Checkpoint.fromRecord record codec = .ok checkpoint ↔
      record.Matches codec ∧ record.Holds codec checkpoint := by
  unfold Checkpoint.fromRecord
  by_cases hformat : record.formatVersion = CheckpointFormatVersion.CURRENT
  swap
  · rw [if_pos hformat]
    exact ⟨nofun, fun h => absurd h.1.formatVersion hformat⟩
  rw [if_neg (not_not.mpr hformat)]
  by_cases hencoding : record.snapshot.descriptor.encoding = codec.snapshotDescriptor.encoding
  swap
  · rw [if_pos hencoding]
    exact ⟨nofun, fun h => absurd (congrArg CodecDescriptor.encoding h.1.descriptor) hencoding⟩
  rw [if_neg (not_not.mpr hencoding)]
  by_cases hschema : record.snapshot.descriptor.schema ≠ codec.snapshotDescriptor.schema ∨
      record.snapshot.descriptor.schemaVersion ≠ codec.snapshotDescriptor.schemaVersion
  · rw [if_pos hschema]
    refine ⟨nofun, fun h => ?_⟩
    rw [h.1.descriptor] at hschema
    exact absurd hschema (by simp)
  rw [if_neg hschema]
  have hdescriptor : record.snapshot.descriptor = codec.snapshotDescriptor := by
    obtain ⟨hs, hv⟩ := not_or.mp hschema
    exact CodecDescriptor.eq (not_not.mp hs) (not_not.mp hv) hencoding
  constructor
  · intro h
    obtain ⟨snapshot, hsnapshot, h⟩ := bind_eq_ok.mp h
    obtain ⟨interrupt, hinterrupt, h⟩ := bind_eq_ok.mp h
    obtain ⟨superstep, hsuperstep, h⟩ := bind_eq_ok.mp h
    obtain ⟨step, hstep, h⟩ := bind_eq_ok.mp h
    cases h
    obtain ⟨hencodings, hrel⟩ := mapM_checkpointInterrupt.mp hinterrupt
    obtain ⟨hsuperstep_le, rfl⟩ := runtimeCounter_iff.mp hsuperstep
    obtain ⟨hstep_le, rfl⟩ := runtimeCounter_iff.mp hstep
    exact ⟨⟨hformat, hdescriptor, hencodings, hsuperstep_le, hstep_le⟩,
      ⟨rfl, rfl, rfl, rfl, rfl, rfl, rfl, rfl, rfl, mapError_eq_ok.mp hsnapshot, hrel⟩⟩
  · rintro ⟨hmatches, hholds⟩
    refine bind_eq_ok.mpr ⟨checkpoint.snapshot, mapError_eq_ok.mpr hholds.snapshot, ?_⟩
    refine bind_eq_ok.mpr ⟨checkpoint.interrupt,
      mapM_checkpointInterrupt.mpr ⟨hmatches.encoding, hholds.interrupt⟩, ?_⟩
    refine bind_eq_ok.mpr ⟨_, runtimeCounter_iff.mpr ⟨hmatches.superstep_le, rfl⟩, ?_⟩
    refine bind_eq_ok.mpr ⟨_, runtimeCounter_iff.mpr ⟨hmatches.steps_le, rfl⟩, ?_⟩
    rw [← hholds.id, ← hholds.threadId, ← hholds.runId, ← hholds.parentId, ← hholds.graphVersion,
      ← hholds.superstep, ← hholds.step, ← hholds.nextFrontier, ← hholds.completed]
    rfl

/-- **The two conversions of a request agree.** Through the record or directly, it becomes the same
checkpoint; it is recorded when it is well formed and the codec encodes what it holds; and a record
that does not match the codec is never read as a checkpoint. -/
theorem codec_agreement (codec : CheckpointCodec τ π) (hcodec : codec.Lawful) :
    (∀ (request : CheckpointRequest τ π) record, request.toRecord codec = .ok record →
      Checkpoint.fromRecord record codec = .ok request.intoCheckpoint) ∧
    (∀ request : CheckpointRequest τ π, (∃ record, request.toRecord codec = .ok record) ↔
      request.WellFormed ∧
        codec.Encodes request.snapshot (request.interrupt.map CheckpointInterrupt.payload)) ∧
    (∀ record, ¬CheckpointRecord.Matches record codec →
      ∃ error, Checkpoint.fromRecord record codec = .error error) ∧
    ∀ record checkpoint, Checkpoint.fromRecord record codec = .ok checkpoint →
      CheckpointRecord.Holds record codec checkpoint := by
  refine ⟨fun request record h => ?_, fun request => toRecord_iff hcodec, fun record h => ?_,
    fun record checkpoint h => (fromRecord_iff.mp h).2⟩
  · obtain ⟨hform, hencodes⟩ := (toRecord_iff hcodec).mp ⟨record, h⟩
    obtain ⟨record', hto, hfrom⟩ := toRecord_fromRecord hform (hencodes.carries hcodec)
    rw [h] at hto
    cases hto
    exact hfrom
  · cases hread : Checkpoint.fromRecord record codec with
    | error error => exact ⟨error, rfl⟩
    | ok checkpoint => exact absurd (fromRecord_iff.mp hread).1 h

/-! ## Runs -/

section Runs

variable {E : Env ν ρ} {g : CompiledGraph ν ρ} {call : Call E} {m : Machine E}

/-- The counters of a checkpoint are `usize` values. -/
def Checkpoint.InRange (c : Checkpoint τ π) : Prop := c.step ≤ usizeMax ∧ c.superstep ≤ usizeMax

/-- A call that loads in-range counters is sound up to what is tolerated. -/
theorem sound_all (h : ∀ checkpoint, call.Reads m checkpoint → checkpoint.InRange) :
    Sound g .all call m where
  runClock := .inl trivial
  nodeClock := .inl trivial
  hops := .inl trivial
  begins checkpoint hread := ⟨(h checkpoint hread).1, (h checkpoint hread).2⟩
  loads := .inl trivial

theorem PathsOf.isEmpty {l : List Nat} {paths : List NodePath} (h : PathsOf g l paths) :
    paths.isEmpty = l.isEmpty := by
  cases h <;> rfl

/-- What a run records is well formed. -/
theorem Recorded.wellFormed (hg : Compiled g) (hs : Sound g .all call m)
    {request : CheckpointRequest E.Snapshot E.Value} {state : E.State} {frontier : List Nat}
    (h : Recorded g call m request state frontier) : request.WellFormed := by
  have hloadable := h.durable.loadable hg hs
  refine ⟨?_, hloadable.interrupt, hloadable.steps_le, hloadable.superstep_le⟩
  rw [hloadable.paths.isEmpty]
  exact hloadable.completed

/-- What a run records is validated, to the indices the run had. -/
theorem Recorded.resolved (hg : Compiled g) (hs : Sound g .all call m)
    (hversion : g.version ≠ none) {request : CheckpointRequest E.Snapshot E.Value} {state : E.State}
    {frontier : List Nat} (h : Recorded g call m request state frontier) :
    Resolved g request.intoCheckpoint frontier := by
  have hloadable := h.durable.loadable hg hs
  obtain ⟨seed, -, hfrontier⟩ := hloadable.nodes
  have hform := h.wellFormed hg hs
  refine ⟨?_, ?_, hloadable.paths, hfrontier.strict, hfrontier.nodes⟩
  · unfold CompiledGraph.checkVersion
    obtain ⟨version, hv⟩ := Option.ne_none_iff_exists'.mp hversion
    have hrequest : request.intoCheckpoint.graphVersion = some version := h.version.trans hv
    rw [hrequest, hv]
    simp
  · unfold CompiledGraph.checkCompletion
    have hcompleted : request.intoCheckpoint.completed = request.nextFrontier.isEmpty := hform.completed
    have hpaths : request.intoCheckpoint.nextFrontier = request.nextFrontier := rfl
    rw [hcompleted, hpaths]
    cases hi : request.interrupt with
    | none =>
      have hnone : request.intoCheckpoint.interrupt = none := hi
      unfold Checkpoint.interrupted
      rw [hnone]
      cases request.nextFrontier <;> simp
    | some interrupt =>
      have hsome : request.intoCheckpoint.interrupt = some interrupt := hi
      unfold Checkpoint.interrupted
      rw [hsome, hform.interrupt interrupt hi]
      simp

/-- **Saved implies loadable.** Every request of every call is recorded, read back as it was, and
validated to the frontier the run was at. -/
theorem saved_loadable (hg : Compiled g) (hversion : g.version ≠ none) (call : Call E)
    (m : Machine E) (hrange : ∀ checkpoint, call.Reads m checkpoint → checkpoint.InRange)
    {ws : List (StoreWrite E)} (hwrites : call.Writes g m ws) {branchId : Option BranchId}
    {request : CheckpointRequest E.Snapshot E.Value}
    {answer : Option (Except CheckpointWriteError (Checkpoint E.Snapshot E.Value))}
    (hsave : .save branchId request answer ∈ ws) (codec : CheckpointCodec E.Snapshot E.Value)
    (hcodec : codec.Carries request.snapshot (request.interrupt.map CheckpointInterrupt.payload)) :
    ∃ state frontier record, Recorded g call m request state frontier ∧
      request.toRecord codec = .ok record ∧
      Checkpoint.fromRecord record codec = .ok request.intoCheckpoint ∧
      g.validateAndResolveCheckpointFrontier request.intoCheckpoint = .ok frontier := by
  have hs := sound_all (g := g) hrange
  obtain ⟨state, frontier, hrecorded⟩ := durable_of_log (hwrites.log hg hs trivial) hsave
  obtain ⟨record, hto, hfrom⟩ := toRecord_fromRecord (hrecorded.wellFormed hg hs) hcodec
  refine ⟨state, frontier, record, hrecorded, hto, hfrom, ?_⟩
  exact (validate_iff hg.indexed (unreserved hg)).mpr (hrecorded.resolved hg hs hversion)

end Runs

/-! ### The records of an invocation -/

namespace Crossroads

theorem lawful : codec.Lawful := ⟨fun _ _ _ => rfl, fun _ _ _ => rfl⟩

/-- A request interrupted at `b`. -/
def suspended : CheckpointRequest Unit Unit where
  checkpointId := ⟨⟨2⟩⟩
  expectedParent := some ⟨⟨1⟩⟩
  graphVersion := some ⟨"1"⟩
  threadId := ⟨"t"⟩
  runId := ⟨⟨0⟩⟩
  superstep := 1
  step := 1
  snapshot := ()
  nextFrontier := [.root ⟨"b"⟩]
  completed := false
  interrupt := some ⟨⟨⟨3⟩⟩, .root ⟨"b"⟩, ()⟩

/-- An interrupted request is recorded and read back as it was. -/
theorem codec_agreement_suspended : ∃ record, suspended.toRecord codec = .ok record ∧
    Checkpoint.fromRecord record codec = .ok suspended.intoCheckpoint := by
  obtain ⟨hread, hrecorded, -⟩ := codec_agreement codec lawful
  obtain ⟨record, hrecord⟩ := (hrecorded suspended).mpr
    ⟨⟨rfl, fun _ h => Option.some.inj h ▸ rfl, by decide, by decide⟩, ⟨[], rfl⟩,
      fun _ _ => ⟨⟨⟨"unit", 1, "none"⟩, []⟩, rfl, rfl⟩⟩
  exact ⟨record, hrecord, hread suspended record hrecord⟩

/-- The machine on which the router chooses `b`. -/
def choosing : Machine (Script.env Unit Unit) := Script.machine ⟨[[⟨"b"⟩]], none⟩

/-- The frontiers saved in a log. -/
def savedFrontiers (ws : List (StoreWrite (Script.env Unit Unit))) : List (List NodePath) :=
  (requests ws).map CheckpointRequest.nextFrontier

theorem exists_saved {ws : List (StoreWrite (Script.env Unit Unit))} {l : List NodePath}
    (h : l ∈ savedFrontiers ws) : ∃ branchId request answer,
      StoreWrite.save branchId request answer ∈ ws ∧ request.nextFrontier = l := by
  obtain ⟨request, hrequest, rfl⟩ := List.mem_map.mp h
  obtain ⟨branchId, answer, hsave⟩ := exists_save hrequest
  exact ⟨branchId, request, answer, hsave, rfl⟩

/-- The first boundary is saved before `b`, and what is saved is loaded. -/
theorem saving_loadable : ∃ request : CheckpointRequest Unit Unit,
    request.nextFrontier = [.root ⟨"b"⟩] ∧ ∃ record, request.toRecord codec = .ok record ∧
      Checkpoint.fromRecord record codec = .ok request.intoCheckpoint ∧
      ∃ frontier, graph.validateAndResolveCheckpointFrontier request.intoCheckpoint = .ok frontier := by
  have hsaved : [.root ⟨"b"⟩] ∈ savedFrontiers (saving.logAfter graph choosing) := by
    decide +kernel
  obtain ⟨branchId, request, answer, hsave, hb⟩ := exists_saved hsaved
  have hcodec : codec.Carries request.snapshot (request.interrupt.map CheckpointInterrupt.payload) :=
    ⟨⟨[], rfl, rfl⟩, fun p _ => ⟨⟨⟨"unit", 1, "none"⟩, []⟩, rfl, rfl, rfl⟩⟩
  obtain ⟨_, frontier, record, _, hto, hfrom, hvalidate⟩ := saved_loadable compiled (by decide) saving
    choosing (fun _ h => h.elim) (Call.Writes.of_empty rfl) hsave codec hcodec
  exact ⟨request, hb, record, hto, hfrom, frontier, hvalidate⟩

end Crossroads

end GroupAgent.Core

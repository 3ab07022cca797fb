import VisualDigest.ChannelStates

/-! A run of pushes with a digest taken now and then. What the digests together show of the history,
and how each is checked against the one before. -/
namespace VisualDigest.Sampling
open Checked BudgetWindow Events Format Hashes Encoder Decoder Grammar EncoderExact Narrowing
open HashesExact DecoderExact RoundTrip ChannelHistory ChannelStates

inductive Sampled (crc : CrcCrate) :
    List Event → ChannelHashes → List (List Event) → List Digest → Prop where
  | done (history h) : Sampled crc history h [] []
  | taken {history h h' batch batches d ds frameCounter framebufferHash out n after}
      (pushed : batch.foldlM (update (ε := Empty) crc) h = .ok h')
      (ran : (encode (history ++ batch) frameCounter framebufferHash h').exec out = (.ok n,after))
      (decoded : decode (written after n) = .ok d)
      (later : Sampled crc (history ++ batch) h' batches ds) :
      Sampled crc history h (batch::batches) (d::ds)

def newest (k : Nat) (d : Digest) : List Record := d.rawRecords.drop (d.rawRecords.length - k)

/- Replayed from the hashes of the digest before, each run of records ends in those of its own. -/
inductive Replays (crc : CrcCrate) : ChannelHashes → List (List Record) → List Digest → Prop where
  | done (h) : Replays crc h [] []
  | next {h records runs d ds} (replayed : records.foldlM (update (ε := Empty) crc) h = .ok d.channelHashes)
      (later : Replays crc d.channelHashes runs ds) : Replays crc h (records::runs) (d::ds)

theorem batchShown {history batch : List Event} {h : ChannelHashes} {frameCounter framebufferHash : UInt32}
    {out after : List.Vector UInt8 digestPayloadCapacity} {n : Nat} {d : Digest}
    (ran : (encode (history ++ batch) frameCounter framebufferHash h).exec out = (.ok n,after))
    (decoded : decode (written after n) = .ok d) :
    (total sizeOfRecord batch ≤ 44 ↔ batch.length ≤ d.rawRecords.length) ∧
    (total sizeOfRecord batch ≤ 44 → newest batch.length d = batch.map normEvent) ∧
    d.channelHashes = h := by
  obtain ⟨after',ran',front,_⟩ := encodeWritten (history ++ batch) frameCounter framebufferHash h out
  obtain ⟨lengths,rfl⟩ := Prod.mk.inj (ran.symm.trans ran')
  cases Except.ok.inj lengths
  cases (decodePayload front).symm.trans decoded
  have read : (payload (history ++ batch) frameCounter framebufferHash h).digest.rawRecords =
      (selected (history ++ batch)).map normEvent := knownEvents _
  have back : batch <:+ history ++ batch := List.suffix_append history batch
  have fits : total sizeOfRecord batch ≤ 44 ↔ batch <:+ selected (history ++ batch) := suffixFits back
  refine ⟨?_,?_,rfl⟩
  · rw [read,List.length_map,fits]
    have inside := (windowLongest sizeOfRecord recordBudget (history ++ batch)).suffix
    exact ⟨fun shown => shown.length_le,fun room => List.suffix_of_suffix_length_le back inside room⟩
  · intro small
    obtain ⟨older,split⟩ := fits.mp small
    have last : (older.map normEvent ++ batch.map normEvent).length - batch.length =
        (older.map normEvent).length := by simp
    rw [newest,read,← split,List.map_append,last,List.drop_left]

section
variable {crc : CrcCrate} {history : List Event} {h : ChannelHashes} {batches : List (List Event)}

theorem runsOn (history : List Event) (h : ChannelHashes) (batches : List (List Event)) :
    ∃ ds, Sampled crc history h batches ds := by
  induction batches generalizing history h with
  | nil => exact ⟨[],.done history h⟩
  | cons batch batches ih =>
    obtain ⟨after,ran,front,_⟩ := encodeWritten (history ++ batch) 0 0 (batch.foldl (updated crc) h)
      (List.Vector.replicate digestPayloadCapacity 0)
    obtain ⟨ds,later⟩ := ih (history ++ batch) (batch.foldl (updated crc) h)
    exact ⟨_::ds,.taken (foldExact crc batch h) ran (decodePayload front) later⟩

theorem runExact {ds : List Digest} (run : Sampled crc history h batches ds) :
    batches.length = ds.length ∧ ∀ pair ∈ batches.zip ds,
      (total sizeOfRecord pair.1 ≤ 44 ↔ pair.1.length ≤ pair.2.rawRecords.length) := by
  induction run with
  | done history h => simp
  | taken pushed ran decoded later ih =>
    obtain ⟨same,each⟩ := ih
    refine ⟨congrArg (· + 1) same,?_⟩
    intro pair member
    rcases List.mem_cons.mp member with rfl | member
    · exact (batchShown ran decoded).1
    · exact each pair member

theorem runReads {ds : List Digest} (run : Sampled crc history h batches ds)
    (fits : ∀ batch ∈ batches, total sizeOfRecord batch ≤ 44) :
    List.zipWith newest (batches.map List.length) ds = batches.map (List.map normEvent) := by
  induction run with
  | done history h => rfl
  | taken pushed ran decoded later ih =>
    obtain ⟨small,smaller⟩ := List.forall_mem_cons.mp fits
    rw [List.map_cons,List.zipWith_cons_cons,(batchShown ran decoded).2.1 small,ih smaller]
    rfl

theorem runReplays {ds : List Digest} (run : Sampled crc history h batches ds)
    (readable : ∀ batch ∈ batches, ∀ e ∈ batch, Readable e) :
    Replays crc h (batches.map (List.map normEvent)) ds := by
  induction run with
  | done history h => exact .done h
  | @taken history h h' batch batches d ds _ _ _ _ _ pushed ran decoded later ih =>
    obtain ⟨first,rest⟩ := List.forall_mem_cons.mp readable
    obtain ⟨_,_,rfl⟩ := batchShown ran decoded
    refine .next ?_ (ih rest)
    rw [foldExact] at pushed ⊢
    rw [replayNorm crc h first]
    exact pushed

end

/- Digests taken often enough lose nothing: put together, the newest records of each are the whole
history as the wire has it, and each digest is checked by a replay from the one before. -/
theorem samplingComplete (crc : CrcCrate) :
    (∀ history h batches, ∃ ds, Sampled crc history h batches ds) ∧
    ∀ history h batches ds, Sampled crc history h batches ds →
      (batches.length = ds.length ∧ ∀ pair ∈ batches.zip ds,
        (total sizeOfRecord pair.1 ≤ 44 ↔ pair.1.length ≤ pair.2.rawRecords.length)) ∧
      ((∀ batch ∈ batches, total sizeOfRecord batch ≤ 44) →
        (List.zipWith newest (batches.map List.length) ds).flatten = batches.flatten.map normEvent ∧
        ((∀ batch ∈ batches, ∀ e ∈ batch, Readable e) →
          Replays crc h (List.zipWith newest (batches.map List.length) ds) ds)) := by
  refine ⟨runsOn,fun history h batches ds run => ⟨runExact run,fun fits => ?_⟩⟩
  have read := runReads run fits
  refine ⟨by rw [read,List.map_flatten],fun readable => ?_⟩
  rw [read]
  exact runReplays run readable

end VisualDigest.Sampling

import Proctor.Proofs.StreamRuns

/-!
What a transcript keeps account of. Each entry that comes is taken in, cut off by the byte budget, or refused
for want of room; what is stored are the runs of the entries taken in, and the counters tell of all others.

Main statement: `budgets_balance`, for all limits and every sequence of entries.
-/

namespace Proctor

namespace Transcript

/-- A transcript without entries. -/
def ofLimits (dataLimit entryLimit : Nat) : Transcript := { dataLimit, entryLimit }

/-- The byte budget cuts off an entry of a stream once it is used up. -/
def Cuts (t : Transcript) (e : Entry) : Prop := e.stream?.isSome ∧ t.dataLimit ≤ t.dataSize

/-- The last entry stored is of the same stream. -/
def Continues (t : Transcript) (e : Entry) : Prop := ∃ last ∈ t.entries.getLast?, last.sameStream e = true

/-- An entry is taken in when the byte budget lets it, and when it needs no place or there is one. -/
def Takes (t : Transcript) (e : Entry) : Prop :=
  ¬t.Cuts e ∧ (t.Continues e ∨ t.entries.length < t.entryLimit)

instance (t : Transcript) (e : Entry) : Decidable (t.Cuts e) := inferInstanceAs (Decidable (_ ∧ _))

instance (t : Transcript) (e : Entry) : Decidable (t.Continues e) :=
  decidable_of_iff (t.entries.getLast?.any (·.sameStream e) = true) (by simp [Continues, Option.any_eq_true])

instance (t : Transcript) (e : Entry) : Decidable (t.Takes e) := inferInstanceAs (Decidable (_ ∧ _))

/-- Each entry of a sequence and the transcript that it comes to. -/
def arrivals (t : Transcript) : List Entry → List (Transcript × Entry)
  | [] => []
  | e :: rest => (t, e) :: (t.record e).arrivals rest

/-- The entries that are taken in. -/
def taken (t : Transcript) (entries : List Entry) : List Entry :=
  ((t.arrivals entries).filter fun (t, e) => t.Takes e).map (·.2)

/-! ### One entry -/

theorem output?_isSome (e : Entry) : e.event.output?.isSome = e.stream?.isSome := by
  simp [Entry.stream?]

theorem Takes.dataSize_lt {t : Transcript} {e : Entry} (h : t.Takes e) (hstream : e.stream?.isSome) :
    t.dataSize < t.dataLimit :=
  Nat.lt_of_not_le fun hspent => h.1 ⟨hstream, hspent⟩

theorem extendLast?_eq_none_iff {t : Transcript} {e : Entry} :
    extendLast? t.entries e = none ↔ ¬t.Continues e := by
  rcases List.eq_nil_or_concat t.entries with hnil | ⟨rest, last, hlast⟩
  · simp [Continues, hnil, extendLast?]
  · simp [Continues, hlast, Entry.extendLast?_snoc, Entry.merge?_eq]

theorem record_of_cuts {t : Transcript} {e : Entry} (h : t.Cuts e) :
    t.record e = { t with discardedBytes := t.discardedBytes + e.event.dataSize } := by
  rw [record, if_pos (by rw [output?_isSome]; exact h)]

theorem record_of_takes {t : Transcript} {e : Entry} (h : t.Takes e) :
    t.record e = { t with
      entries := Entry.mergeOnto t.entries e
      dataSize := t.dataSize + e.event.dataSize } := by
  rw [record, if_neg (by rw [output?_isSome]; exact h.1)]
  cases hextend : extendLast? t.entries e with
  | some entries => simp [Entry.mergeOnto, hextend]
  | none =>
    have hroom := h.2.resolve_left (extendLast?_eq_none_iff.1 hextend)
    simp [Entry.mergeOnto, hextend, hroom]

theorem record_of_refuses {t : Transcript} {e : Entry} (h : ¬t.Takes e) (hcuts : ¬t.Cuts e) :
    t.record e = { t with
      discardedBytes := t.discardedBytes + e.event.dataSize
      discardedEntries := t.discardedEntries + 1 } := by
  have hother : ¬(t.Continues e ∨ t.entries.length < t.entryLimit) := fun hfits => h ⟨hcuts, hfits⟩
  rw [not_or] at hother
  rw [record, if_neg (by rw [output?_isSome]; exact hcuts), extendLast?_eq_none_iff.2 hother.1]
  simp [hother.2]

/-- What is not taken in leaves the stored entries as they are. -/
theorem record_of_not_takes {t : Transcript} {e : Entry} (h : ¬t.Takes e) :
    t.record e = { t with
      discardedBytes := t.discardedBytes + e.event.dataSize
      discardedEntries := t.discardedEntries + if t.Cuts e then 0 else 1 } := by
  by_cases hcuts : t.Cuts e
  · rw [record_of_cuts hcuts, if_pos hcuts]
    rfl
  · rw [record_of_refuses h hcuts, if_neg hcuts]

@[simp] theorem dataLimit_record (t : Transcript) (e : Entry) : (t.record e).dataLimit = t.dataLimit := by
  by_cases h : t.Takes e
  · rw [record_of_takes h]
  · rw [record_of_not_takes h]

@[simp] theorem entryLimit_record (t : Transcript) (e : Entry) :
    (t.record e).entryLimit = t.entryLimit := by
  by_cases h : t.Takes e
  · rw [record_of_takes h]
  · rw [record_of_not_takes h]

theorem dataSize_record_add (t : Transcript) (e : Entry) :
    (t.record e).dataSize + (t.record e).discardedBytes =
      t.dataSize + t.discardedBytes + e.event.dataSize := by
  by_cases h : t.Takes e
  · rw [record_of_takes h]
    exact Nat.add_right_comm ..
  · rw [record_of_not_takes h]
    exact (Nat.add_assoc ..).symm

theorem discardedEntries_record (t : Transcript) (e : Entry) :
    (t.record e).discardedEntries =
      t.discardedEntries + if ¬t.Takes e ∧ ¬t.Cuts e then 1 else 0 := by
  by_cases h : t.Takes e
  · rw [record_of_takes h]
    simp [h]
  · rw [record_of_not_takes h]
    simp [h]

/-- What holds of every transcript that was empty at first: it has no more entries than places, knows how
much they hold, and merged what could be merged. -/
structure Sound (t : Transcript) : Prop where
  room : t.entries.length ≤ t.entryLimit
  size : t.dataSize = Entry.totalSize t.entries
  apart : t.entries.IsChain fun e next => e.sameStream next = false

theorem sound_ofLimits (dataLimit entryLimit : Nat) : (ofLimits dataLimit entryLimit).Sound :=
  ⟨Nat.zero_le _, rfl, .nil⟩

theorem Sound.record {t : Transcript} (h : t.Sound) (e : Entry) : (t.record e).Sound := by
  by_cases htakes : t.Takes e
  · rw [record_of_takes htakes]
    refine ⟨?_, ?_, Entry.isChain_mergeOnto h.apart e⟩
    · rcases Entry.mergeOnto_cases t.entries e with ⟨rest, last, hlast, -, hmore⟩ | ⟨hother, hmore⟩
      · have hroom := h.room
        rw [hlast, List.length_append] at hroom
        simpa [hmore] using hroom
      · -- an entry that continues nothing was taken in for the room
        have hroom := htakes.2.resolve_left (by simpa [Continues] using hother)
        rw [hmore, List.length_append]
        exact hroom
    · rw [Entry.totalSize_mergeOnto, ← h.size]
  · rw [record_of_not_takes htakes]
    exact ⟨h.room, h.size, h.apart⟩

/-- Without a byte to spend no output is taken in. -/
theorem stream?_of_takes {t : Transcript} {e : Entry} (hzero : t.dataLimit = 0) (h : t.Takes e) :
    e.stream? = none := by
  rw [← Option.not_isSome_iff_eq_none]
  intro hstream
  have hbelow := h.dataSize_lt hstream
  omega

/-- A transcript that has no byte to spend and holds no output. -/
def IsSilent (t : Transcript) : Prop := t.dataLimit = 0 ∧ ∀ e ∈ t.entries, e.stream? = none

theorem IsSilent.record {t : Transcript} (h : t.IsSilent) (e : Entry) : (t.record e).IsSilent := by
  refine ⟨by rw [dataLimit_record, h.1], ?_⟩
  by_cases htakes : t.Takes e
  · have hstream := stream?_of_takes h.1 htakes
    rw [record_of_takes htakes]
    rcases Entry.mergeOnto_cases t.entries e with ⟨rest, last, -, hsame, -⟩ | ⟨-, hmore⟩
    · obtain ⟨hlast, hnext⟩ := Entry.sameStream_iff.1 hsame
      simp [hnext, hstream] at hlast
    · rw [hmore, List.forall_mem_append]
      exact ⟨h.2, by simpa using hstream⟩
  · rw [record_of_not_takes htakes]
    exact h.2

/-! ### A sequence of entries -/

theorem recordAll_cons (t : Transcript) (e : Entry) (rest : List Entry) :
    t.recordAll (e :: rest) = (t.record e).recordAll rest := rfl

theorem recordAll_snoc (t : Transcript) (entries : List Entry) (e : Entry) :
    t.recordAll (entries ++ [e]) = (t.recordAll entries).record e := by
  simp [recordAll]

theorem arrivals_snoc (t : Transcript) (entries : List Entry) (e : Entry) :
    t.arrivals (entries ++ [e]) = t.arrivals entries ++ [(t.recordAll entries, e)] := by
  induction entries generalizing t with
  | nil => rfl
  | cons first rest ih => rw [List.cons_append, arrivals, arrivals, ih, recordAll_cons, List.cons_append]

theorem taken_snoc_of_takes {t : Transcript} {entries : List Entry} {e : Entry}
    (h : (t.recordAll entries).Takes e) : t.taken (entries ++ [e]) = t.taken entries ++ [e] := by
  simp [taken, arrivals_snoc, h]

theorem taken_snoc_of_not_takes {t : Transcript} {entries : List Entry} {e : Entry}
    (h : ¬(t.recordAll entries).Takes e) : t.taken (entries ++ [e]) = t.taken entries := by
  simp [taken, arrivals_snoc, h]

/-- What every entry keeps holds after all of them. -/
theorem recordAll_keeps {P : Transcript → Prop} (hstep : ∀ t e, P t → P (t.record e)) {t : Transcript}
    (h : P t) (entries : List Entry) : P (t.recordAll entries) := by
  induction entries generalizing t with
  | nil => exact h
  | cons e rest ih => exact ih (hstep t e h)

@[simp] theorem dataLimit_recordAll (t : Transcript) (entries : List Entry) :
    (t.recordAll entries).dataLimit = t.dataLimit :=
  recordAll_keeps (P := fun after => after.dataLimit = t.dataLimit)
    (fun after e h => (dataLimit_record after e).trans h) rfl entries

@[simp] theorem entryLimit_recordAll (t : Transcript) (entries : List Entry) :
    (t.recordAll entries).entryLimit = t.entryLimit :=
  recordAll_keeps (P := fun after => after.entryLimit = t.entryLimit)
    (fun after e h => (entryLimit_record after e).trans h) rfl entries

theorem Sound.recordAll {t : Transcript} (h : t.Sound) (entries : List Entry) :
    (t.recordAll entries).Sound :=
  recordAll_keeps (fun _ e hsound => hsound.record e) h entries

theorem dataSize_recordAll_add (t : Transcript) (entries : List Entry) :
    (t.recordAll entries).dataSize + (t.recordAll entries).discardedBytes =
      t.dataSize + t.discardedBytes + Entry.totalSize entries := by
  induction entries using List.reverseRecOn with
  | nil => rfl
  | append_singleton entries e ih =>
    rw [recordAll_snoc, dataSize_record_add, ih, Entry.totalSize_append, Entry.totalSize_singleton,
      Nat.add_assoc _ (Entry.totalSize entries)]

theorem discardedEntries_recordAll (t : Transcript) (entries : List Entry) :
    (t.recordAll entries).discardedEntries =
      t.discardedEntries + (t.arrivals entries).countP fun (t, e) => ¬t.Takes e ∧ ¬t.Cuts e := by
  induction entries using List.reverseRecOn with
  | nil => rfl
  | append_singleton entries e ih =>
    rw [recordAll_snoc, discardedEntries_record, ih, arrivals_snoc, List.countP_append, ← Nat.add_assoc,
      List.countP_singleton]
    simp

/-- What is stored are the runs of what was taken in. -/
theorem entries_recordAll (dataLimit entryLimit : Nat) (recorded : List Entry) :
    ((ofLimits dataLimit entryLimit).recordAll recorded).entries =
      Entry.merged ((ofLimits dataLimit entryLimit).taken recorded) := by
  induction recorded using List.reverseRecOn with
  | nil => rfl
  | append_singleton recorded e ih =>
    rw [recordAll_snoc]
    by_cases h : ((ofLimits dataLimit entryLimit).recordAll recorded).Takes e
    · rw [record_of_takes h, taken_snoc_of_takes h, Entry.merged_snoc, ih]
    · rw [record_of_not_takes h, taken_snoc_of_not_takes h, ih]

/-- The chunks of output taken in. -/
def takenOutput (t : Transcript) (entries : List Entry) : List Entry :=
  (t.taken entries).filter (·.stream?.isSome)

/-- Only the last chunk taken in reaches beyond the byte limit, for none is after that. -/
theorem dataSize_lt_of_exceeds {dataLimit entryLimit : Nat} {recorded : List Entry}
    (h : dataLimit < ((ofLimits dataLimit entryLimit).recordAll recorded).dataSize) :
    ∃ last ∈ ((ofLimits dataLimit entryLimit).takenOutput recorded).getLast?,
      ((ofLimits dataLimit entryLimit).recordAll recorded).dataSize <
        dataLimit + last.event.dataSize := by
  induction recorded using List.reverseRecOn with
  | nil => cases h
  | append_singleton recorded e ih =>
    rw [recordAll_snoc] at h ⊢
    by_cases htakes : ((ofLimits dataLimit entryLimit).recordAll recorded).Takes e
    · rw [record_of_takes htakes] at h ⊢
      rw [takenOutput, taken_snoc_of_takes htakes, List.filter_append]
      cases hstream : e.stream? with
      | none =>
        rw [Entry.dataSize_of_stream?_eq_none hstream] at h ⊢
        rw [List.filter_singleton, hstream, Option.isSome_none, cond_false, List.append_nil]
        exact ih h
      | some s =>
        have hbelow := htakes.dataSize_lt (by simp [hstream])
        rw [dataLimit_recordAll] at hbelow
        exact ⟨e, by simp [hstream], Nat.add_lt_add_right hbelow _⟩
    · rw [record_of_not_takes htakes] at h ⊢
      rw [takenOutput, taken_snoc_of_not_takes htakes]
      exact ih h

/-- After any sequence of entries, and so at every point of one: the stored entries are the runs of those taken
in, no more than there are places, and no two neighbours among them are of one stream; the size is that of the
stored data, and with the bytes discarded it makes up all data that came; of the entries that were not taken in
those are counted that the byte budget did not cut off. The byte limit is exceeded by less than the last chunk
taken in, and a limit of zero lets no output in. -/
theorem budgets_balance (dataLimit entryLimit : Nat) (recorded : List Entry) :
    let empty := ofLimits dataLimit entryLimit
    let t := empty.recordAll recorded
    t.entries = Entry.merged (empty.taken recorded) ∧
      t.entries.length ≤ entryLimit ∧
      t.dataSize = Entry.totalSize t.entries ∧
      t.dataSize + t.discardedBytes = Entry.totalSize recorded ∧
      (t.entries.IsChain fun e next => ¬e.sameStream next) ∧
      t.discardedEntries =
        ((empty.arrivals recorded).countP fun (before, e) => ¬before.Takes e ∧ ¬before.Cuts e) ∧
      (dataLimit < t.dataSize → ∃ last ∈ (empty.takenOutput recorded).getLast?,
        t.dataSize < dataLimit + last.event.dataSize) ∧
      (dataLimit = 0 → ∀ e ∈ t.entries, e.stream? = none) := by
  intro empty t
  have hsound : t.Sound := (sound_ofLimits dataLimit entryLimit).recordAll recorded
  refine ⟨entries_recordAll .., ?_, hsound.size, ?_, ?_, ?_, dataSize_lt_of_exceeds, ?_⟩
  · simpa [t, empty, ofLimits] using hsound.room
  · exact (dataSize_recordAll_add empty recorded).trans (Nat.zero_add _)
  · simpa using hsound.apart
  · exact (discardedEntries_recordAll empty recorded).trans (Nat.zero_add _)
  · intro hzero
    have hsilent : empty.IsSilent := ⟨hzero, by simp [empty, ofLimits]⟩
    exact (recordAll_keeps (fun _ e h => h.record e) hsilent recorded).2

/-- Output in three chunks, and the end of the command. -/
def longOutput : List Entry :=
  [⟨.ofSeconds 1, .stream .stdout [97, 98, 99]⟩, ⟨.ofSeconds 2, .stream .stdout [100, 101]⟩,
    ⟨.ofSeconds 3, .stream .stdout [102, 103, 104]⟩, ⟨.ofSeconds 4, .exit 1⟩]

/-- Of four bytes the second chunk makes five, and the third is cut off. -/
theorem longOutput_exceeds :
    let t := (ofLimits 4 100).recordAll longOutput
    4 < t.dataSize ∧ t.dataSize < 4 + 2 ∧ t.discardedBytes = 3 ∧
      ∀ e ∈ ((ofLimits 0 100).recordAll longOutput).entries, e.stream? = none := by
  intro t
  have hexceeds : 4 < t.dataSize := by decide
  obtain ⟨-, -, -, hbytes, -, -, hlast, -⟩ := budgets_balance 4 100 longOutput
  obtain ⟨-, -, -, -, -, -, -, hzero⟩ := budgets_balance 0 100 longOutput
  obtain ⟨last, hlast, hbelow⟩ := hlast hexceeds
  have hsize : last.event.dataSize = 2 := by
    have hchunk : ((ofLimits 4 100).takenOutput longOutput).getLast? =
        some ⟨.ofSeconds 2, .stream .stdout [100, 101]⟩ := by decide
    rw [hchunk] at hlast
    cases hlast
    rfl
  have hdiscarded : 5 + t.discardedBytes = 8 := hbytes
  refine ⟨hexceeds, hsize ▸ hbelow, ?_, hzero rfl⟩
  omega

end Transcript

end Proctor

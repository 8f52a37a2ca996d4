import Proctor.Proofs.Lists
import Proctor.Proofs.TranscriptBudgets

/-!
What a transcript tells of the entries that came. Once an entry of a stream is not taken in, no later one of
that stream is, and likewise for entries of no stream; so what is stored of each kind is how that kind began.
A transcript that is recorded again is stored as it is, and with budgets that suffice all runs are stored.

Main statements: `output_has_no_gaps` and `recorded_again_unchanged`, for all limits and every sequence of
entries.
-/

namespace Proctor

namespace Entry

/-! ### The output of one stream -/

/-- What was output on a stream, piece by piece. -/
def chunks (s : Stream) (entries : List Entry) : List Bytes :=
  (entries.filter (·.stream? = some s)).map data

theorem flatten_chunks (s : Stream) (entries : List Entry) :
    (chunks s entries).flatten = entries.flatMap fun e => if e.stream? = some s then e.data else [] := by
  induction entries with
  | nil => rfl
  | cons e rest ih =>
    rw [List.flatMap_cons, ← ih, chunks, List.filter_cons]
    split <;> simp_all [chunks]

theorem flatten_chunks_merged (s : Stream) (entries : List Entry) :
    (chunks s (merged entries)).flatten = (chunks s entries).flatten := by
  rw [flatten_chunks, flatten_chunks, flatMap_merged]
  intro e next hsame
  rw [data_merge hsame, stream?_withData, (sameStream_iff.1 hsame).2]
  by_cases hs : next.stream? = some s
  · simp [hs]
  · simp [hs]

/-- Merging leaves the entries of no stream as they are. -/
theorem filter_merged (entries : List Entry) :
    (merged entries).filter (·.stream? = none) = entries.filter (·.stream? = none) := by
  induction entries using List.reverseRecOn with
  | nil => rfl
  | append_singleton entries e ih =>
    rw [merged_snoc, List.filter_append, ← ih]
    rcases mergeOnto_cases (merged entries) e with ⟨rest, last, hlast, hsame, hmore⟩ | ⟨-, hmore⟩
    · rw [hmore, hlast]
      obtain ⟨hlast, hnext⟩ := sameStream_iff.1 hsame
      simp [← hnext, Option.isSome_iff_ne_none.1 hlast]
    · rw [hmore, List.filter_append]

/-! ### Where output begins -/

/-- Every chunk of output begins before so many bytes have come. -/
def StartsBelow (limit : Nat) (entries : List Entry) : Prop :=
  ∀ before e after, entries = before ++ e :: after → e.stream?.isSome → totalSize before < limit

theorem startsBelow_snoc {limit : Nat} {entries : List Entry} {e : Entry} :
    StartsBelow limit (entries ++ [e]) ↔
      StartsBelow limit entries ∧ (e.stream?.isSome → totalSize entries < limit) := by
  constructor
  · intro h
    refine ⟨?_, h entries e [] rfl⟩
    rintro before first after rfl
    exact h before first (after ++ [e]) (by simp)
  · rintro ⟨hentries, he⟩ before first after hsplit
    rcases snoc_eq_iff.1 hsplit with ⟨-, rfl, rfl⟩ | ⟨rest, -, rfl⟩
    · exact he
    · exact hentries before first rest rfl

/-- A run begins where its first chunk does. -/
theorem StartsBelow.merged {limit : Nat} {entries : List Entry} (h : StartsBelow limit entries) :
    StartsBelow limit (merged entries) := by
  induction entries using List.reverseRecOn with
  | nil => exact h
  | append_singleton entries e ih =>
    obtain ⟨hentries, he⟩ := startsBelow_snoc.1 h
    have hmerged := ih hentries
    rw [merged_snoc]
    rcases mergeOnto_cases (Entry.merged entries) e with ⟨rest, last, hlast, hsame, hmore⟩ | ⟨-, hmore⟩
    · rw [hlast, startsBelow_snoc] at hmerged
      rw [hmore, startsBelow_snoc]
      exact ⟨hmerged.1, fun _ => hmerged.2 (sameStream_iff.1 hsame).1⟩
    · rw [hmore, startsBelow_snoc, totalSize_merged]
      exact ⟨hmerged, he⟩

theorem length_merged_le (entries : List Entry) (e : Entry) :
    (merged entries).length ≤ (merged (entries ++ [e])).length := by
  rw [merged_snoc]
  rcases mergeOnto_cases (merged entries) e with ⟨rest, last, hlast, -, hmore⟩ | ⟨-, hmore⟩
  · rw [hmore, hlast, List.length_append, List.length_append]
    rfl
  · simp [hmore]

end Entry

namespace Transcript

/-! ### After a gap -/

/-- Of an entry only its stream decides whether it is taken in. -/
theorem takes_congr {t : Transcript} {e e' : Entry} (h : e.stream? = e'.stream?) :
    t.Takes e ↔ t.Takes e' := by
  simp only [Takes, Cuts, Continues, Entry.sameStream, h]

/-- What is taken in after one more entry would have been before it too. -/
theorem Takes.of_record {t : Transcript} {e e' : Entry} (h : (t.record e').Takes e) : t.Takes e := by
  by_cases htakes : t.Takes e'
  · obtain ⟨hcuts, hplace⟩ := h
    rw [record_of_takes htakes] at hcuts hplace
    refine ⟨fun hcut => hcuts ⟨hcut.1, Nat.le_add_right_of_le hcut.2⟩, ?_⟩
    by_cases hroom : t.entries.length < t.entryLimit
    · exact .inr hroom
    -- without room the entry in between was merged: there is no room after it, and its stream stays the last
    obtain ⟨last, hlast, hsame⟩ := htakes.2.resolve_right hroom
    obtain ⟨rest, hrest⟩ := List.getLast?_eq_some_iff.1 hlast
    rw [hrest] at hroom
    simp only [hrest, Entry.mergeOnto_of_sameStream hsame, Continues] at hplace
    obtain ⟨merged, hmerged, hcontinues⟩ := hplace.resolve_right (by simpa using hroom)
    rw [List.getLast?_concat, Option.mem_some_iff] at hmerged
    refine .inl ⟨last, hlast, ?_⟩
    rw [Entry.sameStream_iff] at hsame hcontinues ⊢
    rw [← hmerged, Entry.stream?_withData] at hcontinues
    exact ⟨hsame.1, hsame.2.trans hcontinues.2⟩
  · rw [record_of_not_takes htakes] at h
    exact h

theorem taken_cons_of_takes {t : Transcript} {e : Entry} (h : t.Takes e) (rest : List Entry) :
    t.taken (e :: rest) = e :: (t.record e).taken rest := by
  simp [taken, arrivals, h]

theorem taken_cons_of_not_takes {t : Transcript} {e : Entry} (h : ¬t.Takes e) (rest : List Entry) :
    t.taken (e :: rest) = (t.record e).taken rest := by
  simp [taken, arrivals, h]

theorem stream?_ne_of_mem_taken {t : Transcript} {e : Entry} (h : ¬t.Takes e) (entries : List Entry) :
    ∀ later ∈ t.taken entries, later.stream? ≠ e.stream? := by
  induction entries generalizing t with
  | nil => exact fun _ hlater => nomatch hlater
  | cons first rest ih =>
    have hrest := ih fun hlater : (t.record first).Takes e => h hlater.of_record
    by_cases htakes : t.Takes first
    · rw [taken_cons_of_takes htakes, List.forall_mem_cons]
      exact ⟨fun hsame => h ((takes_congr hsame).1 htakes), hrest⟩
    · rw [taken_cons_of_not_takes htakes]
      exact hrest

/-- The entries of one kind that are taken in are the first of that kind. -/
theorem filter_taken_isPrefix (k : Option Stream) (t : Transcript) (entries : List Entry) :
    (t.taken entries).filter (·.stream? = k) <+: entries.filter (·.stream? = k) := by
  induction entries generalizing t with
  | nil => exact List.prefix_rfl
  | cons e rest ih =>
    by_cases htakes : t.Takes e
    · rw [taken_cons_of_takes htakes, List.filter_cons, List.filter_cons]
      split
      · exact List.cons_prefix_cons.2 ⟨rfl, ih _⟩
      · exact ih _
    · rw [taken_cons_of_not_takes htakes]
      by_cases hkind : e.stream? = k
      · -- the first that is missing, so that none is behind it
        have hlater := stream?_ne_of_mem_taken (fun h : (t.record e).Takes e => htakes h.of_record) rest
        rw [hkind] at hlater
        rw [List.filter_eq_nil_iff.2 (by simpa using hlater)]
        exact List.nil_prefix
      · rw [List.filter_cons_of_neg (by simpa using hkind)]
        exact ih _

/-- Of each stream the stored data are all data up to some chunk, and the stored entries of no stream are the
first of those that came. Each stored entry has the stream, the data and the last time of a run of the entries
that were taken in, and of each kind of entries those that came first were taken in. -/
theorem output_has_no_gaps (dataLimit entryLimit : Nat) (recorded : List Entry) :
    let empty := ofLimits dataLimit entryLimit
    let stored := (empty.recordAll recorded).entries
    (∀ s, ∃ n, (Entry.chunks s stored).flatten = ((Entry.chunks s recorded).take n).flatten) ∧
      stored.filter (·.stream? = none) <+: recorded.filter (·.stream? = none) ∧
      List.Forall₂ Entry.Tells stored (Entry.runs (empty.taken recorded)) ∧
      ∀ k, (empty.taken recorded).filter (·.stream? = k) <+: recorded.filter (·.stream? = k) := by
  intro empty stored
  have hstored : stored = Entry.merged (empty.taken recorded) := entries_recordAll ..
  refine ⟨fun s => ?_, ?_, ?_, fun k => filter_taken_isPrefix k empty recorded⟩
  · have hchunks : Entry.chunks s (empty.taken recorded) <+: Entry.chunks s recorded :=
      (filter_taken_isPrefix (some s) empty recorded).map Entry.data
    exact ⟨_, by rw [hstored, Entry.flatten_chunks_merged, ← List.prefix_iff_eq_take.1 hchunks]⟩
  · rw [hstored, Entry.filter_merged]
    exact filter_taken_isPrefix none empty recorded
  · rw [hstored]
    exact Entry.forall₂_merged_runs _

/-! ### Budgets that suffice -/

/-- Neither budget is hit: every chunk of output begins below the byte limit, and there are no more runs than
places. -/
structure Suffices (dataLimit entryLimit : Nat) (recorded : List Entry) : Prop where
  data : Entry.StartsBelow dataLimit recorded
  entries : (Entry.merged recorded).length ≤ entryLimit

theorem startsBelow_taken (dataLimit entryLimit : Nat) (recorded : List Entry) :
    Entry.StartsBelow dataLimit ((ofLimits dataLimit entryLimit).taken recorded) := by
  induction recorded using List.reverseRecOn with
  | nil => exact fun _ _ _ hsplit => by simp [taken, arrivals] at hsplit
  | append_singleton recorded e ih =>
    by_cases h : ((ofLimits dataLimit entryLimit).recordAll recorded).Takes e
    · rw [taken_snoc_of_takes h, Entry.startsBelow_snoc]
      refine ⟨ih, fun hstream => ?_⟩
      have hsound := (sound_ofLimits dataLimit entryLimit).recordAll recorded
      have hbelow := h.dataSize_lt hstream
      rwa [hsound.size, entries_recordAll, Entry.totalSize_merged, dataLimit_recordAll] at hbelow
    · rw [taken_snoc_of_not_takes h]
      exact ih

/-- A transcript that holds all runs of the entries that came. -/
def complete (dataLimit entryLimit : Nat) (recorded : List Entry) : Transcript where
  dataLimit := dataLimit
  entryLimit := entryLimit
  entries := Entry.merged recorded
  dataSize := Entry.totalSize recorded

variable {dataLimit entryLimit : Nat} {recorded : List Entry}

theorem Suffices.takes {e : Entry} (h : Suffices dataLimit entryLimit (recorded ++ [e])) :
    (complete dataLimit entryLimit recorded).Takes e := by
  obtain ⟨-, hbelow⟩ := Entry.startsBelow_snoc.1 h.data
  refine ⟨fun hcuts => Nat.not_le_of_lt (hbelow hcuts.1) hcuts.2, ?_⟩
  have hroom := h.entries
  rw [Entry.merged_snoc] at hroom
  rcases Entry.mergeOnto_cases (Entry.merged recorded) e with ⟨rest, last, hlast, hsame, -⟩ | ⟨-, hmore⟩
  · exact .inl ⟨last, by simp [complete, hlast], hsame⟩
  · rw [hmore, List.length_append] at hroom
    exact .inr hroom

theorem Suffices.before {e : Entry} (h : Suffices dataLimit entryLimit (recorded ++ [e])) :
    Suffices dataLimit entryLimit recorded where
  data := (Entry.startsBelow_snoc.1 h.data).1
  entries := (Entry.length_merged_le recorded e).trans h.entries

/-- With budgets that suffice nothing is lost. -/
theorem Suffices.recordAll_eq (h : Suffices dataLimit entryLimit recorded) :
    (ofLimits dataLimit entryLimit).recordAll recorded = complete dataLimit entryLimit recorded := by
  induction recorded using List.reverseRecOn with
  | nil => rfl
  | append_singleton recorded e ih =>
    rw [recordAll_snoc, ih h.before, record_of_takes h.takes]
    simp [complete, Entry.merged_snoc]

/-- All entries are taken in exactly when the budgets suffice. -/
theorem taken_eq_iff :
    (ofLimits dataLimit entryLimit).taken recorded = recorded ↔ Suffices dataLimit entryLimit recorded := by
  constructor
  · intro h
    have hroom := ((sound_ofLimits dataLimit entryLimit).recordAll recorded).room
    rw [entries_recordAll, h, entryLimit_recordAll] at hroom
    exact ⟨h ▸ startsBelow_taken dataLimit entryLimit recorded, hroom⟩
  · intro h
    induction recorded using List.reverseRecOn with
    | nil => rfl
    | append_singleton recorded e ih =>
      have htakes := h.takes
      rw [← h.before.recordAll_eq] at htakes
      rw [taken_snoc_of_takes htakes, ih h.before]

theorem suffices_stored (dataLimit entryLimit : Nat) (recorded : List Entry) :
    Suffices dataLimit entryLimit ((ofLimits dataLimit entryLimit).recordAll recorded).entries := by
  have hsound := (sound_ofLimits dataLimit entryLimit).recordAll recorded
  constructor
  · rw [entries_recordAll]
    exact (startsBelow_taken dataLimit entryLimit recorded).merged
  · have hroom := hsound.room
    rwa [entryLimit_recordAll, ← Entry.merged_of_isChain hsound.apart] at hroom

/-- What is stored is stored again as it is, and nothing of it is discarded. Budgets suffice exactly when every
entry is taken in, and then the runs of all entries are stored. -/
theorem recorded_again_unchanged (dataLimit entryLimit : Nat) (recorded : List Entry) :
    let empty := ofLimits dataLimit entryLimit
    let t := empty.recordAll recorded
    empty.recordAll t.entries = { t with discardedBytes := 0, discardedEntries := 0 } ∧
      (empty.taken recorded = recorded ↔ Suffices dataLimit entryLimit recorded) ∧
      (Suffices dataLimit entryLimit recorded →
        t.entries = Entry.merged recorded ∧ t.discardedBytes = 0 ∧ t.discardedEntries = 0) := by
  intro empty t
  have hsound : t.Sound := (sound_ofLimits dataLimit entryLimit).recordAll recorded
  refine ⟨?_, taken_eq_iff, fun h => ?_⟩
  · have hdata : t.dataLimit = dataLimit := dataLimit_recordAll ..
    have hplaces : t.entryLimit = entryLimit := entryLimit_recordAll ..
    rw [(suffices_stored dataLimit entryLimit recorded).recordAll_eq, complete,
      Entry.merged_of_isChain hsound.apart, ← hsound.size, ← hdata, ← hplaces]
  · have ht : t = complete dataLimit entryLimit recorded := h.recordAll_eq
    rw [ht]
    exact ⟨rfl, rfl, rfl⟩

/-- Two chunks of output, and the end of the command. -/
def shortOutput : List Entry :=
  [⟨.ofSeconds 1, .stream .stdout [97]⟩, ⟨.ofSeconds 2, .stream .stdout [98]⟩, ⟨.ofSeconds 3, .exit 0⟩]

/-- Two bytes and two places suffice, for the second chunk begins after one byte. -/
theorem shortOutput_stored :
    Suffices 2 2 shortOutput ∧ ((ofLimits 2 2).recordAll shortOutput).entries =
      [⟨.ofSeconds 2, .stream .stdout [97, 98]⟩, ⟨.ofSeconds 3, .exit 0⟩] := by
  have hsuffices : Suffices 2 2 shortOutput := taken_eq_iff.1 (by decide)
  obtain ⟨-, -, hstored⟩ := recorded_again_unchanged 2 2 shortOutput
  have hmerged : Entry.merged shortOutput =
      [⟨.ofSeconds 2, .stream .stdout [97, 98]⟩, ⟨.ofSeconds 3, .exit 0⟩] := by decide
  exact ⟨hsuffices, (hstored hsuffices).1.trans hmerged⟩

end Transcript

end Proctor

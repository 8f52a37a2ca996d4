import Mathlib.Algebra.GroupWithZero.Nat
import Mathlib.Data.List.SplitBy
import Proctor.Transcript

/-!
Runs of output. Entries of one stream that follow on each other make a run, any other entry is a run of its
own, and a run is told as one entry: all of its data, at the time of its last part. Merging every entry into
the last one, where the two are of one stream, tells the runs of the whole sequence.
-/

namespace Proctor

namespace Entry

/-- The stream that an entry is output of. -/
def stream? (e : Entry) : Option Stream := e.event.output?.map (·.1)

/-- What an entry carries of its stream. -/
def data (e : Entry) : Bytes := (e.event.output?.map (·.2)).getD []

/-- The entry with other data, when it is output of a stream. -/
def withData (e : Entry) (bytes : Bytes) : Entry :=
  match e.event with
  | .stream s _ => ⟨e.time, .stream s bytes⟩
  | _ => e

def sameStream (e next : Entry) : Bool := e.stream?.isSome && e.stream? == next.stream?

/-- The longest parts, in order, whose entries are output of one stream; each other entry is one alone. -/
def runs (entries : List Entry) : List (List Entry) := entries.splitBy sameStream

/-- The parts of a run as one entry. -/
def joined (run : List Entry) : Option Entry :=
  run.getLast?.map (·.withData (run.flatMap data))

def merged (entries : List Entry) : List Entry := (runs entries).filterMap joined

/-- All bytes of stream data that entries carry. -/
def totalSize (entries : List Entry) : Nat := (entries.map (·.event.dataSize)).sum

/-- The entries with one more, merged into the last of them when that is of the same stream. -/
def mergeOnto (entries : List Entry) (e : Entry) : List Entry :=
  (Transcript.extendLast? entries e).getD (entries ++ [e])

theorem sameStream_iff {e next : Entry} :
    e.sameStream next = true ↔ e.stream?.isSome ∧ e.stream? = next.stream? := by
  simp [sameStream]

theorem dataSize_eq (e : Entry) : e.event.dataSize = e.data.length := by
  obtain ⟨time, event⟩ := e
  cases event <;> rfl

theorem totalSize_eq (entries : List Entry) : totalSize entries = (entries.flatMap data).length := by
  simp [totalSize, dataSize_eq]

@[simp] theorem totalSize_append (entries entries' : List Entry) :
    totalSize (entries ++ entries') = totalSize entries + totalSize entries' := by
  simp [totalSize]

@[simp] theorem totalSize_singleton (e : Entry) : totalSize [e] = e.event.dataSize := by
  simp [totalSize]

theorem dataSize_of_stream?_eq_none {e : Entry} (h : e.stream? = none) : e.event.dataSize = 0 := by
  obtain ⟨time, event⟩ := e
  cases event <;> simp_all [stream?, Event.output?, Event.dataSize]

/-! ### Two entries -/

/-- Merging keeps the time of the later entry and puts its data behind those of the earlier. -/
theorem merge?_eq (e next : Entry) :
    e.merge? next =
      if e.sameStream next then some (next.withData (e.data ++ next.data)) else none := by
  obtain ⟨time, event⟩ := e
  obtain ⟨time', event'⟩ := next
  cases event <;> cases event' <;>
    simp [merge?, Event.merge?, sameStream, stream?, data, Event.output?, withData]
  split <;> simp_all

@[simp] theorem stream?_withData (e : Entry) (bytes : Bytes) : (e.withData bytes).stream? = e.stream? := by
  obtain ⟨time, event⟩ := e
  cases event <;> rfl

@[simp] theorem time_withData (e : Entry) (bytes : Bytes) : (e.withData bytes).time = e.time := by
  obtain ⟨time, event⟩ := e
  cases event <;> rfl

theorem data_withData {e : Entry} (h : e.stream?.isSome) (bytes : Bytes) :
    (e.withData bytes).data = bytes := by
  obtain ⟨time, event⟩ := e
  cases event <;> simp_all [stream?, data, Event.output?, withData]

theorem data_of_stream?_eq_none {e : Entry} (h : e.stream? = none) : e.data = [] := by
  obtain ⟨time, event⟩ := e
  cases event <;> simp_all [stream?, data, Event.output?]

@[simp] theorem withData_data (e : Entry) : e.withData e.data = e := by
  obtain ⟨time, event⟩ := e
  cases event <;> rfl

/-! ### The last entry of several -/

/-- Only the last entry can be extended. -/
theorem extendLast?_snoc (entries : List Entry) (last e : Entry) :
    Transcript.extendLast? (entries ++ [last]) e = (last.merge? e).map (entries ++ [·]) := by
  induction entries with
  | nil => rfl
  | cons first rest ih =>
    cases rest with
    | nil =>
      simp only [List.singleton_append, Transcript.extendLast?, Option.map_map]
      rfl
    | cons second rest =>
      rw [List.cons_append, List.cons_append, Transcript.extendLast?, ← List.cons_append, ih,
        Option.map_map]
      · rfl
      · simp

theorem mergeOnto_of_sameStream {entries : List Entry} {last e : Entry} (h : last.sameStream e = true) :
    mergeOnto (entries ++ [last]) e = entries ++ [e.withData (last.data ++ e.data)] := by
  simp [mergeOnto, extendLast?_snoc, merge?_eq, h]

theorem mergeOnto_of_not_sameStream {entries : List Entry} {e : Entry}
    (h : ∀ last ∈ entries.getLast?, last.sameStream e = false) : mergeOnto entries e = entries ++ [e] := by
  rcases List.eq_nil_or_concat entries with rfl | ⟨rest, last, rfl⟩
  · rfl
  · rw [List.concat_eq_append] at h ⊢
    simp [mergeOnto, extendLast?_snoc, merge?_eq, h last (by simp)]

/-- Either the last entry and the new one are of one stream, or the new one stands alone. -/
theorem mergeOnto_cases (entries : List Entry) (e : Entry) :
    (∃ rest last, entries = rest ++ [last] ∧ last.sameStream e = true ∧
        mergeOnto entries e = rest ++ [e.withData (last.data ++ e.data)]) ∨
      ((∀ last ∈ entries.getLast?, last.sameStream e = false) ∧ mergeOnto entries e = entries ++ [e]) := by
  by_cases h : ∀ last ∈ entries.getLast?, last.sameStream e = false
  · exact .inr ⟨h, mergeOnto_of_not_sameStream h⟩
  · push Not at h
    obtain ⟨last, hlast, hsame⟩ := h
    obtain ⟨rest, rfl⟩ := List.getLast?_eq_some_iff.1 hlast
    have hsame : last.sameStream e = true := by simpa using hsame
    exact .inl ⟨rest, last, rfl, hsame, mergeOnto_of_sameStream hsame⟩

/-! ### Runs of a sequence -/

/-- The last run ends with the last entry. -/
theorem exists_runs_snoc (entries : List Entry) (last : Entry) :
    ∃ before run, runs (entries ++ [last]) = before ++ [run ++ [last]] := by
  have hflat : (runs (entries ++ [last])).flatten = entries ++ [last] := List.flatten_splitBy _ _
  have hne : [] ∉ runs (entries ++ [last]) := List.nil_notMem_splitBy _ _
  rcases List.eq_nil_or_concat (runs (entries ++ [last])) with hnil | ⟨before, run, hruns⟩
  · simp [hnil] at hflat
  rw [List.concat_eq_append] at hruns
  rcases List.eq_nil_or_concat run with rfl | ⟨run, x, rfl⟩
  · simp [hruns] at hne
  rw [List.concat_eq_append] at hruns
  rw [hruns, List.flatten_append, List.flatten_singleton, ← List.append_assoc] at hflat
  obtain ⟨-, hx⟩ := List.append_inj' hflat rfl
  exact ⟨before, run, by rw [hruns, List.singleton_inj.1 hx]⟩

theorem runs_snoc_of_sameStream {entries run : List Entry} {before : List (List Entry)} {last e : Entry}
    (hruns : runs (entries ++ [last]) = before ++ [run ++ [last]]) (h : last.sameStream e = true) :
    runs (entries ++ [last] ++ [e]) = before ++ [run ++ [last] ++ [e]] := by
  obtain ⟨hflat, hne, hwithin, hbetween⟩ := List.splitBy_eq_iff.1 hruns
  refine List.splitBy_eq_iff.2 ⟨by simp [hflat], by simpa using hne, ?_, ?_⟩
  · intro part hpart
    rcases List.mem_append.1 hpart with hpart | hpart
    · exact hwithin part (List.mem_append_left _ hpart)
    · rw [List.mem_singleton.1 hpart]
      have hrun := hwithin (run ++ [last]) (by simp)
      exact List.isChain_append.2 ⟨hrun, List.isChain_singleton _, by simpa using h⟩
  · rw [List.isChain_append] at hbetween ⊢
    refine ⟨hbetween.1, List.isChain_singleton _, fun part hpart next hnext => ?_⟩
    obtain ⟨hpart', _, hother⟩ := hbetween.2.2 part hpart (run ++ [last]) (by simp)
    cases Option.some.inj hnext
    refine ⟨hpart', by simp, ?_⟩
    rwa [List.head_append_of_ne_nil]

theorem runs_snoc_of_not_sameStream {entries : List Entry} {e : Entry}
    (h : ∀ last ∈ entries.getLast?, last.sameStream e = false) :
    runs (entries ++ [e]) = runs entries ++ [[e]] :=
  List.splitBy_append_cons [] h

theorem joined_snoc (run : List Entry) (last : Entry) :
    joined (run ++ [last]) = some (last.withData (run.flatMap data ++ last.data)) := by
  simp [joined]

theorem joined_singleton (e : Entry) : joined [e] = some e := by
  simp [joined]

/-- Merging one more entry onto the merged runs merges the runs of all. -/
theorem merged_snoc (entries : List Entry) (e : Entry) :
    merged (entries ++ [e]) = mergeOnto (merged entries) e := by
  rcases List.eq_nil_or_concat entries with rfl | ⟨rest, last, rfl⟩
  · exact congrArg Option.toList (joined_singleton e)
  rw [List.concat_eq_append]
  obtain ⟨before, run, hruns⟩ := exists_runs_snoc rest last
  have hmerged : merged (rest ++ [last]) = before.filterMap joined ++
      [last.withData (run.flatMap data ++ last.data)] := by
    simp [merged, hruns, joined_snoc]
  by_cases hsame : last.sameStream e = true
  · have hmore := runs_snoc_of_sameStream hruns hsame
    have hstream := (sameStream_iff.1 hsame).1
    rw [hmerged, mergeOnto_of_sameStream (by simpa [sameStream] using hsame), data_withData hstream,
      merged, hmore, List.filterMap_append, List.filterMap_cons, joined_snoc]
    simp
  · rw [Bool.not_eq_true] at hsame
    rw [mergeOnto_of_not_sameStream (by simpa [hmerged, sameStream] using hsame), merged,
      runs_snoc_of_not_sameStream (by simpa using hsame), List.filterMap_append]
    simp [merged, joined_singleton]

/-! ### What merging leaves as it is -/

section

variable {α : Type} {f : Entry → List α}
  (h : ∀ e next : Entry, e.sameStream next = true →
    f (next.withData (e.data ++ next.data)) = f e ++ f next)

include h

theorem flatMap_mergeOnto (entries : List Entry) (e : Entry) :
    (mergeOnto entries e).flatMap f = entries.flatMap f ++ f e := by
  rcases mergeOnto_cases entries e with ⟨rest, last, rfl, hsame, hmore⟩ | ⟨-, hmore⟩
  · rw [hmore]
    simp [h last e hsame]
  · simp [hmore]

/-- What merging two entries only appends is the same after all runs were merged. -/
theorem flatMap_merged (entries : List Entry) : (merged entries).flatMap f = entries.flatMap f := by
  induction entries using List.reverseRecOn with
  | nil => rfl
  | append_singleton entries e ih =>
    rw [merged_snoc, flatMap_mergeOnto h, ih, List.flatMap_append, List.flatMap_singleton]

end

theorem data_merge {e next : Entry} (h : e.sameStream next = true) :
    (next.withData (e.data ++ next.data)).data = e.data ++ next.data := by
  obtain ⟨hstream, heq⟩ := sameStream_iff.1 h
  exact data_withData (heq ▸ hstream) _

theorem totalSize_mergeOnto (entries : List Entry) (e : Entry) :
    totalSize (mergeOnto entries e) = totalSize entries + e.event.dataSize := by
  rw [totalSize_eq, flatMap_mergeOnto fun _ _ => data_merge, List.length_append, ← totalSize_eq,
    dataSize_eq]

/-- Merging loses no byte. -/
theorem totalSize_merged (entries : List Entry) : totalSize (merged entries) = totalSize entries := by
  rw [totalSize_eq, flatMap_merged fun _ _ => data_merge, totalSize_eq]

/-- Entries that cannot be merged any further stay so with one more merged onto them. -/
theorem isChain_mergeOnto {entries : List Entry}
    (h : entries.IsChain fun e next => e.sameStream next = false) (e : Entry) :
    (mergeOnto entries e).IsChain fun e next => e.sameStream next = false := by
  rcases mergeOnto_cases entries e with ⟨rest, last, rfl, hsame, hmore⟩ | ⟨hother, hmore⟩
  · rw [List.isChain_append] at h
    rw [hmore, List.isChain_append]
    refine ⟨h.1, List.isChain_singleton _, fun x hx y hy => ?_⟩
    cases Option.some.inj hy
    have hx' := h.2.2 x hx last (by simp)
    simpa [sameStream, (sameStream_iff.1 hsame).2] using hx'
  · rw [hmore, List.isChain_append]
    exact ⟨h, List.isChain_singleton _, by simpa using hother⟩

/-- Entries of which no two neighbours are of one stream are their own runs. -/
theorem merged_of_isChain {entries : List Entry}
    (h : entries.IsChain fun e next => e.sameStream next = false) : merged entries = entries := by
  induction entries using List.reverseRecOn with
  | nil => rfl
  | append_singleton entries e ih =>
    obtain ⟨hentries, -, hlast⟩ := List.isChain_append.1 h
    rw [merged_snoc, ih hentries, mergeOnto_of_not_sameStream (by simpa using hlast)]

/-! ### What an entry tells of its run -/

/-- An entry of the stream of all parts, with their data in order and the time of the last. Without a stream
it is the only part. -/
structure Tells (e : Entry) (run : List Entry) : Prop where
  stream : ∀ part ∈ run, part.stream? = e.stream?
  data : e.data = run.flatMap data
  time : ∃ last ∈ run.getLast?, e.time = last.time
  alone : e.stream? = none → run = [e]

/-- A run is told by one entry. -/
theorem exists_joined_tells {entries run : List Entry} (h : run ∈ runs entries) :
    ∃ e, joined run = some e ∧ e.Tells run := by
  have hchain : run.IsChain fun e next => e.sameStream next = true := List.isChain_of_mem_splitBy h
  rcases List.eq_nil_or_concat run with rfl | ⟨parts, last, rfl⟩
  · exact absurd h (List.nil_notMem_splitBy _ _)
  rw [List.concat_eq_append] at hchain ⊢
  have hstreams : (parts ++ [last]).Pairwise fun e next => e.stream? = next.stream? :=
    List.isChain_iff_pairwise.1 (hchain.imp fun _ _ hsame => (sameStream_iff.1 hsame).2)
  have hparts : ∀ part ∈ parts ++ [last], part.stream? = last.stream? := by
    intro part hpart
    rcases List.mem_append.1 hpart with hpart | hpart
    · exact (List.pairwise_append.1 hstreams).2.2 part hpart last (by simp)
    · rw [List.mem_singleton.1 hpart]
  refine ⟨_, joined_snoc parts last, ?_, ?_, ⟨last, by simp, time_withData ..⟩, ?_⟩
  · simpa using hparts
  · cases hstream : last.stream? with
    | some s => simpa using data_withData (by simp [hstream]) _
    | none =>
      have hnone : ∀ part ∈ parts ++ [last], part.data = [] :=
        fun part hpart => data_of_stream?_eq_none ((hparts part hpart).trans hstream)
      rw [List.flatMap_eq_nil_iff.2 hnone]
      exact data_of_stream?_eq_none (by simpa using hstream)
  · intro hnone
    rw [stream?_withData] at hnone
    -- a part before the last one would be of its stream
    rcases List.eq_nil_or_concat parts with rfl | ⟨before, x, rfl⟩
    · simp
    · rw [List.concat_eq_append, List.isChain_append] at hchain
      have hsame := sameStream_iff.1 (hchain.2.2 x (by simp) last (by simp))
      rw [hsame.2, hnone] at hsame
      cases hsame.1

/-- The merged entries tell the runs one by one. -/
theorem forall₂_merged_runs (entries : List Entry) :
    List.Forall₂ Tells (merged entries) (runs entries) := by
  have hall : ∀ run ∈ runs entries, ∃ e, joined run = some e ∧ e.Tells run :=
    fun run => exists_joined_tells
  rw [merged]
  generalize runs entries = runs at hall
  induction runs with
  | nil => exact .nil
  | cons run rest ih =>
    obtain ⟨e, hjoined, htells⟩ := hall run (.head _)
    rw [List.filterMap_cons_some hjoined]
    exact .cons htells (ih fun run hrun => hall run (.tail _ hrun))

end Entry

end Proctor

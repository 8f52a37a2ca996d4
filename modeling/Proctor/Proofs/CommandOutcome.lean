import Mathlib.Data.List.Induction
import Proctor.Engine.Docker

/-!
What comes of a command that the docker program runs. Its output arrives in pieces of both streams in any
order; every piece is passed on, and what is kept of the errors is their end, however they were cut.

Main statement: `outcome_of_exec`.
-/

namespace Proctor.Docker

/-! ### Reading to the end -/

/-- What some pieces hold of a stream. -/
def streamOf (pieces : List Chunk) (channel : Channel) : Bytes :=
  ((pieces.filter (·.channel = channel)).map (·.data)).flatten

theorem streamOf_append (pieces pieces' : List Chunk) (channel : Channel) :
    streamOf (pieces ++ pieces') channel = streamOf pieces channel ++ streamOf pieces' channel := by
  simp [streamOf]

theorem streamOf_singleton (piece : Chunk) (channel : Channel) :
    streamOf [piece] channel = if channel = piece.channel then piece.data else [] := by
  by_cases h : channel = piece.channel
  · simp [streamOf, h]
  · simp [streamOf, h, Ne.symm h]

/-- The last bytes of a stream, as many as are read at once. -/
def lastRead (stream : Bytes) : Bytes :=
  stream.drop (stream.length - readSize)

theorem lastRead_drop {stream : Bytes} {n : Nat} (h : n ≤ stream.length - readSize) :
    lastRead (stream.drop n) = lastRead stream := by
  have hsame : n + (stream.length - n - readSize) = stream.length - readSize := by omega
  rw [lastRead, lastRead, List.drop_drop, List.length_drop, hsame]

/-- Of what is kept with the next piece the end is that of the whole stream. -/
theorem extendTail_lastRead (stream piece : Bytes) :
    extendTail (lastRead stream) piece = lastRead (stream ++ piece) := by
  have hkept : lastRead stream ++ piece = (stream ++ piece).drop (stream.length - readSize) :=
    (List.drop_append_of_le_length (Nat.sub_le _ _)).symm
  have hextend : extendTail (lastRead stream) piece = lastRead (lastRead stream ++ piece) := rfl
  rw [hextend, hkept, lastRead_drop]
  rw [List.length_append]
  omega

/-- All pieces read so far were passed on, and the ends of both streams are kept. -/
structure Pumped.Keeps (p : Pumped) (pieces : List Chunk) : Prop where
  forwarded : p.forwarded = pieces
  tail : ∀ channel, p.tail channel = lastRead (streamOf pieces channel)

theorem Pumped.Keeps.read {p : Pumped} {pieces : List Chunk} (h : p.Keeps pieces) (piece : Chunk) :
    (p.read piece).Keeps (pieces ++ [piece]) where
  forwarded := congrArg (· ++ [piece]) h.forwarded
  tail channel := by
    rw [streamOf_append, streamOf_singleton, Pumped.read]
    simp only
    split
    · rw [h.tail, extendTail_lastRead]
    · rw [h.tail, List.append_nil]

theorem keeps_pump (pieces : List Chunk) : (pump pieces).Keeps pieces := by
  induction pieces using List.reverseRecOn with
  | nil => exact ⟨rfl, fun _ => List.drop_nil.symm⟩
  | append_singleton pieces piece ih =>
    rw [pump, List.foldl_append]
    exact ih.read piece

/-! ### How output arrives -/

/-- Both streams are read to their ends, one piece of either of them after another. -/
inductive Arrives : (Channel → Bytes) → List Chunk → Prop
  | ended {streams : Channel → Bytes} (hended : ∀ channel, streams channel = []) : Arrives streams []
  | read {streams : Channel → Bytes} {channel : Channel} {piece rest : Bytes} {pieces : List Chunk}
      (hpiece : 0 < piece.length ∧ piece.length ≤ readSize) (hstream : streams channel = piece ++ rest)
      (hrest : Arrives (fun other => if other = channel then rest else streams other) pieces) :
      Arrives streams (⟨channel, piece⟩ :: pieces)

/-- Nothing is lost of a stream, and nothing changes its place in it. -/
theorem Arrives.streamOf_eq {streams : Channel → Bytes} {pieces : List Chunk}
    (h : Arrives streams pieces) (channel : Channel) : streamOf pieces channel = streams channel := by
  induction h with
  | ended hended => exact (hended channel).symm
  | @read streams read piece rest pieces hpiece hstream hrest ih =>
    rw [← List.singleton_append, streamOf_append, streamOf_singleton, ih]
    by_cases hchannel : channel = read
    · simp only [hchannel, if_true, hstream]
    · simp only [hchannel, if_false, List.nil_append]

/-- Pieces that can be read at once arrive as what they hold. -/
theorem arrives_streamOf {pieces : List Chunk}
    (h : ∀ piece ∈ pieces, 0 < piece.data.length ∧ piece.data.length ≤ readSize) :
    Arrives (streamOf pieces) pieces := by
  induction pieces with
  | nil => exact .ended fun _ => rfl
  | cons piece pieces ih =>
    have hstream (channel : Channel) : streamOf (piece :: pieces) channel =
        (if channel = piece.channel then piece.data else []) ++ streamOf pieces channel := by
      rw [← streamOf_singleton, ← streamOf_append]
      rfl
    have hrest : (fun other => if other = piece.channel then streamOf pieces piece.channel
        else streamOf (piece :: pieces) other) = streamOf pieces := by
      funext other
      by_cases hother : other = piece.channel
      · rw [if_pos hother, hother]
      · rw [if_neg hother, hstream, if_neg hother, List.nil_append]
    refine .read (h piece (.head _)) ((hstream _).trans (by rw [if_pos rfl])) ?_
    rw [hrest]
    exact ih fun piece hmem => h piece (.tail _ hmem)

/-! ### The container after a command -/

variable {σ : Type} (d : Docker σ) (name : String)

/-- The docker program finds a container and says that it is running. -/
def SaysRunning (s : σ) : Prop :=
  ∃ reply, (d.launch (inspectArguments name) [] s).1 = .ok reply ∧ reply.exit = .code 0 ∧
    Text.trim (Utf8.decodeLossy (reply.output .stdout)) = "true"

theorem outcome_of_zero {reply : Reply} (arguments : List String) (h : reply.exit = .code 0) :
    outcome arguments reply = .ok (reply.output .stdout) := by
  rw [outcome, h]
  rfl

theorem exists_outcome_error {reply : Reply} (arguments : List String) (h : reply.exit ≠ .code 0) :
    ∃ error, outcome arguments reply = .error error := by
  cases hexit : reply.exit with
  | signal number => simp [outcome, hexit, killed]
  | code code =>
    have hne : code.toNat ≠ 0 := by
      intro hzero
      have hcode : code = 0 := UInt8.toNat_inj.1 hzero
      exact h (hexit.trans (congrArg Exit.code hcode))
    simp [outcome, hexit, hne]

theorem isRunning_iff (s : σ) : (d.isRunning name s).1 = true ↔ d.SaysRunning name s := by
  unfold isRunning run SaysRunning
  rcases d.launch (inspectArguments name) [] s with ⟨reason | reply, s'⟩
  · simp
  · by_cases hexit : reply.exit = .code 0
    · simp [outcome_of_zero _ hexit, hexit]
    · obtain ⟨error, herror⟩ := exists_outcome_error (inspectArguments name) hexit
      simp [herror, hexit]

theorem snd_isRunning (s : σ) : (d.isRunning name s).2 = (d.launch (inspectArguments name) [] s).2 := by
  unfold isRunning run
  rcases d.launch (inspectArguments name) [] s with ⟨reason | reply, s'⟩
  · rfl
  · cases houtcome : outcome (inspectArguments name) reply <;> simp [houtcome]

theorem exec_of_launch (uid : Nat) (command : List String) {s s' : σ} {reply : Reply}
    (hlaunch : d.launch (execArguments name uid false command) [] s = (.ok reply, s')) :
    d.exec name uid command s =
      let inspected := if reply.exit.status = 0 then (true, s') else d.isRunning name s'
      ({ chunks := (pump reply.chunks).forwarded
         ending := judge name reply.exit.status ((pump reply.chunks).tail .stderr) inspected.1 },
        inspected.2) := by
  simp only [exec, hlaunch]

/-- Whatever a command writes is passed on, however it arrives, and its status tells what came of it: the
engine refused it, its container is gone, or it exited. -/
theorem outcome_of_exec (uid : Nat) (command : List String) (s s' : σ) (streams : Channel → Bytes)
    (pieces : List Chunk) (exit : Exit) (status : Int) (harrives : Arrives streams pieces)
    (hlaunch : d.launch (execArguments name uid false command) [] s = (.ok ⟨pieces, exit⟩, s'))
    (hcode : ∀ code, exit = .code code → status = code.toNat)
    (hsignal : ∀ number, exit = .signal number → status = 128 + number) :
    let errors := (streams .stderr).drop ((streams .stderr).length - 8192)
    let e := (d.exec name uid command s).1
    e.chunks = pieces ∧ (∀ channel, e.output channel = streams channel) ∧
      (status = 125 →
        e.ending = .failed (.command "docker exec" 125 (Text.trim (Utf8.decodeLossy errors)))) ∧
      (status ≠ 0 → status ≠ 125 → ¬d.SaysRunning name s' → e.ending = .failed (.notFound name)) ∧
      (status = 0 ∨ status ≠ 125 ∧ d.SaysRunning name s' → e.ending = .exited status) ∧
      (d.exec name uid command s).2 =
        if status = 0 then s' else (d.launch (inspectArguments name) [] s').2 := by
  intro errors e
  have hstatus : exit.status = status := by
    cases exit with
    | code code => exact (hcode code rfl).symm
    | signal number => exact (hsignal number rfl).symm
  have hkeeps := keeps_pump pieces
  have hexec := exec_of_launch d name uid command hlaunch
  have herrors : (pump pieces).tail .stderr = errors := by
    rw [hkeeps.tail, harrives.streamOf_eq]
    rfl
  have hchunks : e.chunks = pieces := (congrArg (·.1.chunks) hexec).trans hkeeps.forwarded
  simp only [hstatus, herrors] at hexec
  have hending : e.ending = judge name status errors
      (if status = 0 then (true, s') else d.isRunning name s').1 := congrArg (·.1.ending) hexec
  refine ⟨hchunks, ?_, ?_, ?_, ?_, ?_⟩
  · intro channel
    have houtput : e.output channel = streamOf e.chunks channel := rfl
    rw [houtput, hchunks, harrives.streamOf_eq]
  · intro hrefused
    have hsame : status = refused := hrefused
    rw [hending, judge, if_pos hsame, hrefused]
    rfl
  · intro hnonzero hother hgone
    have hnot : status ≠ refused := hother
    rw [← isRunning_iff] at hgone
    rw [hending, if_neg hnonzero, judge, if_neg hnot, if_pos ⟨hnonzero, hgone⟩]
  · rintro (hzero | ⟨hother, hthere⟩)
    · rw [hending, if_pos hzero, judge, hzero]
      rfl
    · have hnot : status ≠ refused := hother
      rw [← isRunning_iff] at hthere
      rw [hending, judge, if_neg hnot, if_neg]
      rintro ⟨hnonzero, hgone⟩
      rw [if_neg hnonzero] at hgone
      exact hgone hthere
  · rw [hexec]
    split
    · rfl
    · exact snd_isRunning d name s'

/-- What a program writes that is run for a container which is not there. -/
def refusal : List Chunk :=
  [⟨.stderr, Utf8.encode "no such "⟩, ⟨.stdout, [46]⟩, ⟨.stderr, Utf8.encode "container\n"⟩]

/-- Errors in two pieces, with output between them, are told as one. -/
theorem outcome_of_refusal :
    let s : Rehearsal := { replies := [⟨refusal, .code 125⟩, { exit := .code 1 }] }
    let e := (exec ⟨"docker", Rehearsal.launch⟩ "nanny-42" 10000 ["make"] s).1
    e.output .stdout = [46] ∧ e.output .stderr = Utf8.encode "no such container\n" ∧
      e.ending = .failed (.command "docker exec" 125 "no such container") := by
  have harrives : Arrives (streamOf refusal) refusal := arrives_streamOf (by decide)
  have hstdout : streamOf refusal .stdout = [46] := by decide
  have hstderr : streamOf refusal .stderr = Utf8.encode "no such container\n" := by decide
  intro s
  obtain ⟨_, houtput, hrefused, _⟩ :=
    outcome_of_exec ⟨"docker", Rehearsal.launch⟩ "nanny-42" 10000 ["make"] s _ _ _ (.code 125) 125
      harrives rfl (by rintro code ⟨⟩; rfl) (by rintro number ⟨⟩)
  have htext : Text.trim (Utf8.decodeLossy ((streamOf refusal .stderr).drop
      ((streamOf refusal .stderr).length - 8192))) = "no such container" := by
    decide +kernel
  refine ⟨(houtput .stdout).trans hstdout, (houtput .stderr).trans hstderr, (hrefused rfl).trans ?_⟩
  rw [htext]

end Proctor.Docker

import Fixity.Proofs.Shell.Moments

/-! # Sessions that are cut

A sink with a limit takes the first bytes of what a session writes without one. -/

namespace Fixity

/-! ## Single writes -/

section Write

variable {written : ByteArray} {room : Nat}

theorem Sink.write_unlimited (text : String) :
    Sink.write ⟨written, none⟩ text = .ok ⟨written ++ text.toUTF8, none⟩ :=
  rfl

theorem Sink.write_of_le {text : String} (h : text.utf8ByteSize ≤ room) :
    Sink.write ⟨written, some room⟩ text =
      .ok ⟨written ++ text.toUTF8, some (room - text.utf8ByteSize)⟩ :=
  if_pos h

theorem Sink.write_of_lt {text : String} (h : room < text.utf8ByteSize) :
    Sink.write ⟨written, some room⟩ text =
      .error ⟨written ++ text.toUTF8.extract 0 room, some 0⟩ :=
  if_neg (Nat.not_le.mpr h)

theorem toUTF8_append (a b : String) : (a ++ b).toUTF8 = a.toUTF8 ++ b.toUTF8 :=
  String.toByteArray_append

theorem extract_append_of_le {a b : String} (h : room ≤ a.utf8ByteSize) :
    (a ++ b).toUTF8.extract 0 room = a.toUTF8.extract 0 room := by
  have hsize : room ≤ a.toUTF8.size := h
  rw [toUTF8_append, ByteArray.extract_append, Nat.zero_sub, Nat.sub_eq_zero_of_le hsize,
    ByteArray.extract_same, ByteArray.append_empty]

theorem extract_append_of_ge {a b : String} (h : a.utf8ByteSize ≤ room) :
    (a ++ b).toUTF8.extract 0 room =
      a.toUTF8 ++ b.toUTF8.extract 0 (room - a.utf8ByteSize) := by
  have hall : a.toUTF8.extract 0 room = a.toUTF8 := by
    rw [← Nat.max_eq_left h]
    exact ByteArray.extract_zero_max_size
  rw [toUTF8_append, ByteArray.extract_append, hall, Nat.zero_sub]
  rfl

end Write

/-! ## The moment of a byte -/

/-- The text of the moment has the byte behind the first `limit` ones. -/
structure IsCutAt (moments : List Moment) (limit : Nat) (before : List Moment) (moment : Moment) :
    Prop where
  split : ∃ after, moments = before ++ moment :: after
  written : (transcript before).utf8ByteSize ≤ limit
  exceeded : limit < (transcript (before ++ [moment])).utf8ByteSize

namespace IsCutAt

variable {moments before : List Moment} {moment moment' : Moment} {limit : Nat}

/-- Bytes lie behind those of a moment in front. -/
theorem cons (h : IsCutAt moments (limit - moment'.text.utf8ByteSize) before moment)
    (hfits : moment'.text.utf8ByteSize ≤ limit) :
    IsCutAt (moment' :: moments) limit (moment' :: before) moment := by
  obtain ⟨⟨after, hsplit⟩, hwritten, hexceeded⟩ := h
  refine ⟨⟨after, by rw [hsplit, List.cons_append]⟩, ?_, ?_⟩
  · rw [transcript_cons, String.utf8ByteSize_append]
    omega
  · rw [List.cons_append, transcript_cons, String.utf8ByteSize_append]
    omega

end IsCutAt

/-! ## Replays -/

section Replay

variable (failure : Option SessionFailure) (shell : Shell) (written : ByteArray) {room : Nat}
  {moments : List Moment}

theorem written_replay_unlimited :
    (replay failure shell ⟨written, none⟩ moments).sink.written =
      written ++ (transcript moments).toUTF8 := by
  induction moments generalizing shell written with
  | nil => simp [replay]
  | cons moment moments ih =>
      rw [replay, Sink.write_unlimited, ih, transcript_cons, toUTF8_append, ByteArray.append_assoc]

theorem replay_of_le (h : (transcript moments).utf8ByteSize ≤ room) :
    let whole := replay failure shell ⟨written, none⟩ moments
    replay failure shell ⟨written, some room⟩ moments =
      ⟨⟨whole.sink.written, some (room - (transcript moments).utf8ByteSize)⟩, whole.failure,
        whole.shell⟩ := by
  induction moments generalizing shell written room with
  | nil => rfl
  | cons moment moments ih =>
      rw [transcript_cons, String.utf8ByteSize_append] at h
      have hfits : moment.text.utf8ByteSize ≤ room := by omega
      have hrest : (transcript moments).utf8ByteSize ≤ room - moment.text.utf8ByteSize := by omega
      simp only [replay, Sink.write_of_le hfits, Sink.write_unlimited, ih _ _ hrest,
        transcript_cons, String.utf8ByteSize_append, Nat.sub_sub]

/-- A limit that is exceeded cuts the text of one moment. -/
theorem exists_replay_of_lt (h : room < (transcript moments).utf8ByteSize) :
    ∃ before moment, IsCutAt moments room before moment ∧
      replay failure shell ⟨written, some room⟩ moments =
        ⟨⟨written ++ (transcript moments).toUTF8.extract 0 room, some 0⟩, some .sinkFull,
          moment.shell⟩ := by
  induction moments generalizing shell written room with
  | nil => exact absurd h (Nat.not_lt_zero room)
  | cons moment moments ih =>
      rw [transcript_cons, String.utf8ByteSize_append] at h
      by_cases hfits : moment.text.utf8ByteSize ≤ room
      · have hrest : room - moment.text.utf8ByteSize < (transcript moments).utf8ByteSize := by omega
        obtain ⟨before, cut, hcut, hreplay⟩ :=
          ih moment.settled (written ++ moment.text.toUTF8) hrest
        refine ⟨moment :: before, cut, hcut.cons hfits, ?_⟩
        rw [replay, Sink.write_of_le hfits, transcript_cons, extract_append_of_ge hfits,
          ← ByteArray.append_assoc]
        exact hreplay
      · have hlt : room < moment.text.utf8ByteSize := Nat.not_le.mp hfits
        have hcut : IsCutAt (moment :: moments) room [] moment :=
          ⟨⟨moments, rfl⟩, Nat.zero_le room, by simpa using hlt⟩
        refine ⟨[], moment, hcut, ?_⟩
        rw [replay, Sink.write_of_lt hlt, transcript_cons, extract_append_of_le (Nat.le_of_lt hlt)]

end Replay

/-! ## Sessions -/

namespace Shell

/-- A limit that is not exceeded changes nothing. Otherwise the sink has the first bytes of what is
written without it, and the session stops at the moment of the next byte: each line is in a block
whose report was written, or it waits. -/
theorem run_limited_eq_or_cut (shell : Shell) (input : List UInt8) (limit : Nat) :
    let moments := shell.moments (inputLines input)
    let whole := shell.run {} (inputLines input)
    let cut := shell.run { room := some limit } (inputLines input)
    whole = replay (ending (inputLines input)) shell {} moments ∧
      whole.sink.written = (transcript moments).toUTF8 ∧
      ((whole.sink.written.size ≤ limit ∧ cut.sink.written = whole.sink.written ∧
          cut.failure = whole.failure ∧ cut.shell = whole.shell) ∨
        (limit < whole.sink.written.size ∧ cut.sink.written = whole.sink.written.extract 0 limit ∧
          cut.failure = some .sinkFull ∧
          ∃ before moment, IsCutAt moments limit before moment ∧ cut.shell = moment.shell ∧
            (∀ block ∈ moment.blocks, cut.shell.pending = block) ∧
            ((before ++ [moment]).flatMap Moment.lines).map some <+: inputLines input ∧
            shell.pending ++ textOf ((before ++ [moment]).flatMap Moment.lines) =
              String.join (before.flatMap Moment.blocks) ++ cut.shell.pending)) := by
  intro moments whole cut
  have hwhole : whole = replay (ending (inputLines input)) shell ⟨.empty, none⟩ moments :=
    run_eq_replay shell _ _
  have hcut : cut = replay (ending (inputLines input)) shell ⟨.empty, some limit⟩ moments :=
    run_eq_replay shell _ _
  have hwritten : whole.sink.written = (transcript moments).toUTF8 := by
    rw [hwhole, written_replay_unlimited, ByteArray.empty_append]
  refine ⟨hwhole, hwritten, ?_⟩
  rcases Nat.lt_or_ge limit (transcript moments).utf8ByteSize with hlt | hle
  · right
    rw [hwritten]
    obtain ⟨before, moment, hmoment, hreplay⟩ :=
      exists_replay_of_lt (ending (inputLines input)) shell .empty hlt
    obtain ⟨after, hsplit⟩ := hmoment.split
    rw [ByteArray.empty_append, ← hcut] at hreplay
    rw [hreplay]
    have hcontinues : Continues shell (before ++ moment :: after) :=
      hsplit ▸ shell.continues_moments (inputLines input)
    exact ⟨hlt, rfl, rfl, before, moment, hmoment, rfl,
      fun block hblock => Moment.pending_of_mem_blocks hblock, lines_prefix_of_moments_eq hsplit,
      hcontinues.pending_append⟩
  · left
    have hsame := replay_of_le (ending (inputLines input)) shell .empty hle
    rw [← hcut, ← hwhole] at hsame
    rw [hsame]
    exact ⟨hwritten ▸ hle, rfl, rfl, rfl⟩

-- The limit lies in the middle of the tree that is written for the two lines.
example : (run {} { room := some 20 } (inputLines "x +\n1\n".toUTF8.toList)).shell.pending =
    "x +\n1\n" := by
  decide +kernel

end Shell

end Fixity

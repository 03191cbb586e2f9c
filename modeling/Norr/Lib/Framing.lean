import Mathlib.Data.List.Basic
import Mathlib.Data.List.Infix
import Mathlib.Tactic

/-! Records that follow one another in a stream, and a reader that gets the stream in pieces.

`Parsed` relates what the reader has to what was sent; `Parsed.next` is the step of every reader. -/

/-- What a decoder says about the symbols it holds. -/
inductive Decoded (α β : Type*)
  | frame (value : α) (rest : List β)
  | incomplete
  | malformed

/-- `payload` is what the reader gets from a record: a record may carry more, such as padding. -/
structure Framing (ι α β : Type*) where
  payload : ι → α
  encode : ι → List β
  decode : List β → Decoded α β

namespace Framing

variable {ι α β : Type*} (framing : Framing ι α β)

def stream (records : List ι) : List β := records.flatMap framing.encode

theorem stream_append (first second : List ι) :
    framing.stream (first ++ second) = framing.stream first ++ framing.stream second :=
  List.flatMap_append

structure Lawful (valid : ι → Prop) : Prop where
  nothing : framing.decode [] = .incomplete
  whole : ∀ record rest, valid record →
    framing.decode (framing.encode record ++ rest) = .frame (framing.payload record) rest
  part : ∀ record part, valid record → part <+: framing.encode record → part ≠ framing.encode record →
    framing.decode part = .incomplete

variable {framing}

/-- At the head of a stream either the first record is complete, or the decoder waits. -/
theorem Lawful.decode_stream {valid : ι → Prop} (lawful : framing.Lawful valid) {record : ι}
    {records : List ι} {held coming : List β} (sound : valid record)
    (split : held ++ coming = framing.stream (record :: records)) :
    framing.decode held = .incomplete ∧ coming ≠ [] ∨ ∃ rest,
      framing.decode held = .frame (framing.payload record) rest ∧ held = framing.encode record ++ rest := by
  rw [stream, List.flatMap_cons, ← stream] at split
  rcases List.append_eq_append_iff.mp split with ⟨missing, encoded, arriving⟩ | ⟨rest, holds, -⟩
  · by_cases complete : missing = []
    · rw [complete, List.append_nil] at encoded
      refine .inr ⟨[], ?_, by rw [List.append_nil, encoded]⟩
      rw [← encoded, ← List.append_nil (framing.encode record)]
      exact lawful.whole record [] sound
    · refine .inl ⟨lawful.part record held sound ⟨missing, encoded.symm⟩ ?_, ?_⟩
      · intro same
        rw [same] at encoded
        exact complete (List.self_eq_append_right.mp encoded)
      · rw [arriving]
        exact List.append_ne_nil_of_left_ne_nil complete _
  · rw [holds]
    exact .inr ⟨rest, lawful.whole record rest sound, rfl⟩

/-- The reader has read `read`, of which `frames` are parsed and `held` is not. -/
structure Parsed (framing : Framing ι α β) (records : List ι) (read : List β) (frames : List α)
    (held : List β) : Prop where
  split : ∃ done left, records = done ++ left ∧ frames = done.map framing.payload ∧
    read = framing.stream done ++ held

namespace Parsed

variable {records : List ι} {read held : List β} {frames : List α}

theorem start (framing : Framing ι α β) (records : List ι) : framing.Parsed records [] [] [] :=
  ⟨[], records, rfl, rfl, rfl⟩

theorem sent (parsed : framing.Parsed records read frames held) (more : List ι) :
    framing.Parsed (records ++ more) read frames held := by
  obtain ⟨done, left, all, same, bytes⟩ := parsed.split
  exact ⟨done, left ++ more, by rw [all, List.append_assoc], same, bytes⟩

theorem received (parsed : framing.Parsed records read frames held) (chunk : List β) :
    framing.Parsed records (read ++ chunk) frames (held ++ chunk) := by
  obtain ⟨done, left, all, same, bytes⟩ := parsed.split
  exact ⟨done, left, all, same, by rw [bytes, List.append_assoc]⟩

theorem isPrefix (parsed : framing.Parsed records read frames held) :
    frames <+: records.map framing.payload := by
  obtain ⟨done, left, rfl, rfl, -⟩ := parsed.split
  rw [List.map_append]
  exact List.prefix_append _ _

variable {valid : ι → Prop}

theorem next (parsed : framing.Parsed records read frames held) (lawful : framing.Lawful valid)
    (sound : ∀ record ∈ records, valid record) (arrived : read <+: framing.stream records) :
    framing.decode held = .incomplete ∨ ∃ record ∈ records, ∃ rest,
      framing.decode held = .frame (framing.payload record) rest ∧
        framing.Parsed records read (frames ++ [framing.payload record]) rest := by
  obtain ⟨done, left, rfl, rfl, rfl⟩ := parsed.split
  obtain ⟨coming, whole⟩ := arrived
  rw [stream_append, List.append_assoc, List.append_cancel_left_eq] at whole
  cases left with
  | nil =>
    rw [(List.append_eq_nil_iff.mp whole).1]
    exact .inl lawful.nothing
  | cons record left =>
    have known : record ∈ done ++ record :: left := List.mem_append_right _ List.mem_cons_self
    rcases lawful.decode_stream (sound record known) whole with ⟨waits, -⟩ | ⟨rest, decoded, rfl⟩
    · exact .inl waits
    · refine .inr ⟨record, known, rest, decoded, done ++ [record], left, ?_, ?_, ?_⟩
      · rw [List.append_assoc, List.singleton_append]
      · rw [List.map_append, List.map_singleton]
      · rw [stream_append, List.append_assoc, stream, stream, List.flatMap_singleton]

/-- A reader that waits although everything has arrived has parsed everything. -/
theorem finished (parsed : framing.Parsed records read frames held) (lawful : framing.Lawful valid)
    (sound : ∀ record ∈ records, valid record) (arrived : read = framing.stream records)
    (waits : framing.decode held = .incomplete) : frames = records.map framing.payload := by
  obtain ⟨done, left, rfl, rfl, rfl⟩ := parsed.split
  rw [stream_append, List.append_cancel_left_eq] at arrived
  cases left with
  | nil => rw [List.append_nil]
  | cons record left =>
    have known : record ∈ done ++ record :: left := List.mem_append_right _ List.mem_cons_self
    have split : held ++ [] = framing.stream (record :: left) := by rw [List.append_nil, arrived]
    rcases lawful.decode_stream (sound record known) split with ⟨-, more⟩ | ⟨rest, decoded, -⟩
    · exact absurd rfl more
    · rw [decoded] at waits
      cases waits

end Parsed

section Complete

variable (framing)

/-- The frames that are complete in the symbols, at most `rounds` of them. -/
def framesIn : ℕ → List β → List α
  | 0, _ => []
  | rounds + 1, held =>
    match framing.decode held with
    | .frame value rest => value :: framesIn rounds rest
    | .incomplete => []
    | .malformed => []

/-- A frame takes at least one symbol, so there is a round for every frame. -/
def complete (held : List β) : List α := framing.framesIn held.length held

/-- A frame is taken off the front, and what follows it plays no part. -/
structure Progressive : Prop where
  shrinks : ∀ {held rest : List β} {value : α}, framing.decode held = .frame value rest → rest.length < held.length
  stable : ∀ {held rest : List β} {value : α}, framing.decode held = .frame value rest →
    ∀ more, framing.decode (held ++ more) = .frame value (rest ++ more)

variable {framing}

theorem framesIn_none {held : List β} (none : ∀ value rest, framing.decode held ≠ .frame value rest) (rounds : ℕ) :
    framing.framesIn rounds held = [] := by
  cases rounds with
  | zero => rfl
  | succ rounds =>
    cases decoded : framing.decode held with
    | frame value rest => exact absurd decoded (none value rest)
    | incomplete => rw [framesIn, decoded]
    | malformed => rw [framesIn, decoded]

theorem Progressive.framesIn_enough (progressive : framing.Progressive) {first second : ℕ} {held : List β}
    (enough : held.length ≤ first) (alsoEnough : held.length ≤ second) :
    framing.framesIn first held = framing.framesIn second held := by
  induction first generalizing second held with
  | zero =>
    have none : ∀ value rest, framing.decode held ≠ .frame value rest := fun value rest decoded =>
      absurd (progressive.shrinks decoded) (by omega)
    rw [framesIn_none none, framesIn_none none]
  | succ first ih =>
    cases decoded : framing.decode held with
    | frame value rest =>
      have shorter := progressive.shrinks decoded
      obtain ⟨second, rfl⟩ : ∃ fewer, second = fewer + 1 := ⟨second - 1, by omega⟩
      have same : framing.framesIn first rest = framing.framesIn second rest := ih (by omega) (by omega)
      simp only [framesIn, decoded, same]
    | incomplete | malformed =>
      have none : ∀ value rest, framing.decode held ≠ .frame value rest := by simp [decoded]
      rw [framesIn_none none, framesIn_none none]

theorem Progressive.complete_frame (progressive : framing.Progressive) {held rest : List β} {value : α}
    (decoded : framing.decode held = .frame value rest) :
    framing.complete held = value :: framing.complete rest := by
  have shorter := progressive.shrinks decoded
  rw [complete, progressive.framesIn_enough le_rfl (Nat.le_succ held.length), framesIn, decoded]
  simp only [complete, progressive.framesIn_enough (Nat.le_of_lt shorter) le_rfl]

theorem complete_none {held : List β} (none : ∀ value rest, framing.decode held ≠ .frame value rest) :
    framing.complete held = [] := framesIn_none none _

/-- What arrives completes further frames and changes none. -/
theorem Progressive.complete_append (progressive : framing.Progressive) (held more : List β) :
    framing.complete held <+: framing.complete (held ++ more) := by
  induction size : held.length using Nat.strong_induction_on generalizing held with
  | _ size ih =>
    by_cases none : ∀ value rest, framing.decode held ≠ .frame value rest
    · rw [complete_none none]
      exact List.nil_prefix
    · push Not at none
      obtain ⟨value, rest, decoded⟩ := none
      have shorter := progressive.shrinks decoded
      rw [progressive.complete_frame decoded, progressive.complete_frame (progressive.stable decoded more)]
      exact (List.prefix_cons_inj value).mpr (ih rest.length (size ▸ shorter) rest rfl)

end Complete

end Framing

import MiniRudis.Proto.Resume

/-!
# The connection loop

`handle_connection` as far as it turns bytes into frames and protocol errors.
What it does with a frame comes later and does not touch the buffer.
-/

namespace MiniRudis

open Lib

theorem parseFrame_some_iff {reserve : Nat → Bool} {buf rest : Bytes} {frame : Frame} :
    parseFrame reserve buf = (.ok (some frame), rest) ↔
      frontFrame reserve buf = .ok (frame, rest) := by
  rw [parseFrame_eq]
  cases frontFrame reserve buf with
  | ok p => simp [Prod.ext_iff]
  | error e => by_cases he : e = incomplete <;> simp [he]

theorem parseFrame_none_iff {reserve : Nat → Bool} {buf rest : Bytes} :
    parseFrame reserve buf = (.ok none, rest) ↔
      frontFrame reserve buf = .error incomplete ∧ rest = buf := by
  rw [parseFrame_eq]
  cases frontFrame reserve buf with
  | ok p => simp
  | error e =>
      by_cases he : e = incomplete
      · simp [he, eq_comm]
      · simp [he]

theorem parseFrame_error_iff {reserve : Nat → Bool} {buf rest : Bytes} {e : Fault} :
    parseFrame reserve buf = (.error e, rest) ↔
      frontFrame reserve buf = .error e ∧ e ≠ incomplete ∧ rest = buf := by
  rw [parseFrame_eq]
  cases frontFrame reserve buf with
  | ok p => simp
  | error e' =>
      simp only [Except.error.injEq]
      by_cases he : e' = incomplete
      · rw [if_pos he]
        constructor
        · intro h
          exact absurd (congrArg Prod.fst h) (by simp)
        · rintro ⟨rfl, hne, -⟩
          exact absurd he hne
      · rw [if_neg he, Prod.ext_iff]
        constructor
        · rintro ⟨heq, hrest⟩
          obtain rfl := Except.error.inj heq
          exact ⟨rfl, he, hrest.symm⟩
        · rintro ⟨rfl, -, rfl⟩
          exact ⟨rfl, rfl⟩

theorem parseFrame_shorter {reserve : Nat → Bool} {buf rest : Bytes} {frame : Frame}
    (h : parseFrame reserve buf = (.ok (some frame), rest)) : rest.length < buf.length :=
  (frontFrame_stable reserve).shorter (parseFrame_some_iff.mp h)

/-- The inner loop: the frames and the error that `parse_frame` returns, and the
buffer for the next read, unless a panic has ended the task. -/
def drainBuffer (reserve : Nat → Bool) (buf : Bytes) : List (Outcome Frame) × Option Bytes :=
  match _h : parseFrame reserve buf with
  | (.ok (some frame), rest) =>
      (.ok frame :: (drainBuffer reserve rest).1, (drainBuffer reserve rest).2)
  | (.ok none, rest) => ([], some rest)
  -- `buf.clear(); break;`
  | (.error (.err e), _) => ([err e], some [])
  | (.error .panicked, _) => ([panicked], none)
termination_by buf.length
decreasing_by
  all_goals exact parseFrame_shorter _h

/-- `handle_connection`: the reads append chunks, and an empty one ends the
connection. -/
def handleConnection (reserve : Nat → Bool) (buf : Bytes) : List Bytes → List (Outcome Frame)
  | [] => []
  | chunk :: chunks =>
      if chunk.isEmpty then []
      else
        match drainBuffer reserve (buf ++ chunk) with
        | (events, some buf) => events ++ handleConnection reserve buf chunks
        | (events, none) => events

/-- The frames before the first error, and the error. -/
def upToError {ε α : Type} : List (Except ε α) → List α × Option ε
  | [] => ([], none)
  | .ok a :: events => (a :: (upToError events).1, (upToError events).2)
  | .error e :: _ => ([], some e)

theorem upToError_append {ε α : Type} (events events' : List (Except ε α)) :
    upToError (events ++ events') =
      match upToError events with
      | (as, none) => (as ++ (upToError events').1, (upToError events').2)
      | (as, some e) => (as, some e) := by
  induction events with
  | nil => rfl
  | cons event events ih =>
      cases event with
      | error e => rfl
      | ok a =>
          rw [List.cons_append, upToError, upToError, ih]
          cases hout : upToError events with
          | mk as out => cases out <;> rfl

/-! ## Chunks -/

theorem drainBuffer_ok {reserve : Nat → Bool} {buf rest : Bytes} {frame : Frame}
    (h : parseFrame reserve buf = (.ok (some frame), rest)) :
    drainBuffer reserve buf =
      (.ok frame :: (drainBuffer reserve rest).1, (drainBuffer reserve rest).2) := by
  rw [drainBuffer]
  split <;> simp_all

theorem drainBuffer_none {reserve : Nat → Bool} {buf rest : Bytes}
    (h : parseFrame reserve buf = (.ok none, rest)) :
    drainBuffer reserve buf = ([], some rest) := by
  rw [drainBuffer]
  split <;> simp_all

theorem drainBuffer_error {reserve : Nat → Bool} {buf rest : Bytes} {e : Fault}
    (h : parseFrame reserve buf = (.error e, rest)) :
    (drainBuffer reserve buf).1 = [.error e] := by
  rw [drainBuffer]
  split <;> simp_all

/-- The inner loop is the library's, up to the first error. -/
theorem drainBuffer_drain {reserve : Nat → Bool} {buf : Bytes} {frames : List Frame}
    {out : Except Fault Bytes} (h : drain (frontFrame_stable reserve) buf = (frames, out)) :
    (∀ rest, out = .ok rest → drainBuffer reserve buf = (frames.map .ok, some rest)) ∧
      ∀ e, out = .error e → (drainBuffer reserve buf).1 = frames.map .ok ++ [.error e] := by
  induction hlen : buf.length using Nat.strongRecOn generalizing buf frames with
  | _ n ih =>
      cases hfront : frontFrame reserve buf with
      | ok p =>
          obtain ⟨frame, next⟩ := p
          have hparse := parseFrame_some_iff.mpr hfront
          have hshorter := parseFrame_shorter hparse
          rw [drain_ok hfront, Prod.mk.injEq] at h
          obtain ⟨hok, herror⟩ := ih next.length (by omega) (Prod.ext rfl h.2) rfl
          rw [drainBuffer_ok hparse, ← h.1]
          constructor
          · intro rest hout
            rw [hok rest hout]
            rfl
          · intro e hout
            rw [herror e hout]
            rfl
      | error e =>
          rw [drain_error hfront] at h
          by_cases he : e = incomplete
          · rw [if_pos he, Prod.mk.injEq] at h
            obtain ⟨rfl, rfl⟩ := h
            rw [he] at hfront
            refine ⟨fun rest hout => ?_, by simp⟩
            rw [← Except.ok.inj hout]
            exact drainBuffer_none (parseFrame_none_iff.mpr ⟨hfront, rfl⟩)
          · rw [if_neg he, Prod.mk.injEq] at h
            obtain ⟨rfl, rfl⟩ := h
            refine ⟨by simp, fun e' hout => ?_⟩
            rw [← Except.error.inj hout]
            exact drainBuffer_error (parseFrame_error_iff.mpr ⟨hfront, he, rfl⟩)

/-! ## Chunks -/

def outcome (r : List Frame × Except Fault Bytes) : List Frame × Option Fault :=
  match r.2 with
  | .ok _ => (r.1, none)
  | .error e => (r.1, some e)

theorem upToError_ok {ε α : Type} (as : List α) :
    upToError (as.map (.ok : α → Except ε α)) = (as, none) := by
  induction as with
  | nil => rfl
  | cons a as ih => rw [List.map_cons, upToError, ih]

theorem upToError_error {ε α : Type} (as : List α) (e : ε) (events : List (Except ε α)) :
    upToError (as.map .ok ++ [.error e] ++ events) = (as, some e) := by
  rw [List.append_assoc, upToError_append, upToError_ok]
  simp [upToError]

theorem handleConnection_eq_feed (reserve : Nat → Bool) (buf : Bytes) (chunks : List Bytes)
    (hchunks : ∀ chunk ∈ chunks, chunk ≠ []) :
    upToError (handleConnection reserve buf chunks) =
      outcome (feed (frontFrame_stable reserve) buf chunks) := by
  induction chunks generalizing buf with
  | nil => rfl
  | cons chunk chunks ih =>
      have hne : ¬ chunk.isEmpty = true := by
        simpa using hchunks chunk (by simp)
      rw [handleConnection, if_neg hne, feed]
      cases hout : drain (frontFrame_stable reserve) (buf ++ chunk) with
      | mk frames out =>
          cases out with
          | ok rest =>
              have hrest := ih rest fun c hc => hchunks c (List.mem_cons_of_mem _ hc)
              have hdrained := (drainBuffer_drain hout).1 rest rfl
              simp only [hdrained, upToError_append, upToError_ok, hrest, outcome]
              cases (feed (frontFrame_stable reserve) rest chunks).2 <;> rfl
          | error e =>
              have hevents := (drainBuffer_drain hout).2 e rfl
              cases hbuffer : drainBuffer reserve (buf ++ chunk) with
              | mk events next =>
                  rw [hbuffer] at hevents
                  simp only at hevents
                  rw [hevents]
                  cases next with
                  | none =>
                      have hlast := upToError_error frames e []
                      rw [List.append_nil] at hlast
                      exact hlast
                  | some buf' => exact upToError_error frames e _

/-- **Chunks are invisible.**  However a stream is cut into non-empty chunks, the
connection loop yields the same frames up to the first error, and the same error;
`parse_frame` keeps a frame, its length and an error when bytes are appended,
takes at least one byte with each frame, and leaves an incomplete buffer alone. -/
theorem handleConnection_chunking (reserve : Nat → Bool) :
    (∀ chunks chunks' : List Bytes, (∀ chunk ∈ chunks, chunk ≠ []) →
      (∀ chunk ∈ chunks', chunk ≠ []) → chunks.flatten = chunks'.flatten →
      upToError (handleConnection reserve [] chunks) =
        upToError (handleConnection reserve [] chunks')) ∧
    (∀ buf frame rest, parseFrame reserve buf = (.ok (some frame), rest) →
      rest.length < buf.length ∧
      ∀ ext, parseFrame reserve (buf ++ ext) = (.ok (some frame), rest ++ ext)) ∧
    (∀ buf e rest, parseFrame reserve buf = (.error e, rest) →
      ∀ ext, (parseFrame reserve (buf ++ ext)).1 = .error e) ∧
    ∀ buf rest, parseFrame reserve buf = (.ok none, rest) → rest = buf := by
  have hstable := frontFrame_stable reserve
  refine ⟨?_, ?_, ?_, ?_⟩
  · intro chunks chunks' hne hne' hstream
    have hwait : drain hstable [] = ([], .ok []) := by
      rw [drain_error (e := incomplete) rfl, if_pos rfl]
    rw [handleConnection_eq_feed reserve [] chunks hne, feed_eq_drain hwait,
      handleConnection_eq_feed reserve [] chunks' hne', feed_eq_drain hwait, hstream]
  · intro buf frame rest h
    refine ⟨parseFrame_shorter h, fun ext => ?_⟩
    exact parseFrame_some_iff.mpr (hstable.ok_append ext (parseFrame_some_iff.mp h))
  · intro buf e rest h ext
    obtain ⟨hfront, he, -⟩ := parseFrame_error_iff.mp h
    exact congrArg Prod.fst (parseFrame_error_iff.mpr ⟨hstable.error_append ext hfront he, he, rfl⟩)
  · intro buf rest h
    exact (parseFrame_none_iff.mp h).2

theorem handleConnection_chunking_sample :
    upToError (handleConnection (fun _ => true) [] [[43, 79], [75, 13], [10]]) =
      upToError (handleConnection (fun _ => true) [] [[43, 79, 75, 13, 10]]) :=
  (handleConnection_chunking fun _ => true).1 [[43, 79], [75, 13], [10]] [[43, 79, 75, 13, 10]]
    (by decide) (by decide) rfl

end MiniRudis

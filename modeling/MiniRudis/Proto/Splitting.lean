import MiniRudis.Proto.RoundTrip

/-!
# Lines with CR LF in them

A reader takes an error frame for finished at the first CR LF of its text.
-/

namespace MiniRudis

open Lib

/-! ## CR LF within bytes -/

theorem crlf_infix_iff (b : Bytes) :
    crlf <:+: b ↔ ∃ i : Nat, b[i]? = some 13 ∧ b[i + 1]? = some 10 := by
  constructor
  · rintro ⟨before, rest, rfl⟩
    refine ⟨before.length, ?_, ?_⟩
    · simp [crlf]
    · simp [crlf]
  · rintro ⟨i, hcr, hlf⟩
    obtain ⟨hi, hcr⟩ := List.getElem?_eq_some_iff.mp hcr
    obtain ⟨hnext, hlf⟩ := List.getElem?_eq_some_iff.mp hlf
    refine ⟨b.take i, b.drop (i + 2), ?_⟩
    calc b.take i ++ crlf ++ b.drop (i + 2)
        = b.take i ++ (b[i] :: b[i + 1] :: b.drop (i + 2)) := by
          rw [hcr, hlf, List.append_assoc]
          rfl
      _ = b.take i ++ b.drop i := by
          rw [← List.drop_eq_getElem_cons hnext, ← List.drop_eq_getElem_cons hi]
      _ = b := List.take_append_drop i b

/-- Bytes between which and their neighbours no CR LF arises. -/
def Quiet (q : Bytes) : Prop := q ≠ [] ∧ 13 ∉ q ∧ 10 ∉ q

instance (q : Bytes) : Decidable (Quiet q) := inferInstanceAs (Decidable (_ ∧ _))

theorem crlf_infix_quiet {q : Bytes} (hq : Quiet q) (a b : Bytes) :
    crlf <:+: a ++ q ++ b ↔ crlf <:+: a ∨ crlf <:+: b := by
  constructor
  · intro h
    obtain ⟨i, hcr, hlf⟩ := (crlf_infix_iff _).mp h
    obtain ⟨hne, hnocr, hnolf⟩ := hq
    have hpos := List.length_pos_iff.mpr hne
    rw [List.append_assoc] at hcr hlf
    by_cases hleft : i < a.length
    · rw [List.getElem?_append_left hleft] at hcr
      by_cases hnext : i + 1 < a.length
      · rw [List.getElem?_append_left hnext] at hlf
        exact Or.inl ((crlf_infix_iff a).mpr ⟨i, hcr, hlf⟩)
      · rw [List.getElem?_append_right (by omega), List.getElem?_append_left (by omega)] at hlf
        exact absurd (List.mem_of_getElem? hlf) hnolf
    · rw [List.getElem?_append_right (by omega)] at hcr hlf
      by_cases hmid : i - a.length < q.length
      · rw [List.getElem?_append_left hmid] at hcr
        exact absurd (List.mem_of_getElem? hcr) hnocr
      · rw [List.getElem?_append_right (by omega)] at hcr hlf
        have hindex : i + 1 - a.length - q.length = i - a.length - q.length + 1 := by omega
        rw [hindex] at hlf
        exact Or.inr ((crlf_infix_iff b).mpr ⟨_, hcr, hlf⟩)
  · rintro (h | h)
    · exact h.trans ⟨[], q ++ b, by simp⟩
    · exact h.trans ⟨a ++ q, [], by simp⟩

/-! ## CR LF within a text -/

def BreaksLine (s : String) : Prop := crlf <:+: asBytes s

instance (s : String) : Decidable (BreaksLine s) := inferInstanceAs (Decidable (_ <:+: _))

theorem breaksLine_between {q : String} (hq : Quiet (asBytes q)) (s t : String) :
    BreaksLine (s ++ q ++ t) ↔ BreaksLine s ∨ BreaksLine t := by
  unfold BreaksLine
  rw [asBytes_append, asBytes_append, crlf_infix_quiet hq]

theorem not_breaksLine_empty : ¬ BreaksLine "" := by decide

theorem breaksLine_before {q : String} (hq : Quiet (asBytes q)) (t : String) :
    BreaksLine (q ++ t) ↔ BreaksLine t := by
  have hbetween := breaksLine_between hq "" t
  rwa [String.empty_append, or_iff_right not_breaksLine_empty] at hbetween

theorem breaksLine_after {q : String} (hq : Quiet (asBytes q)) (s : String) :
    BreaksLine (s ++ q) ↔ BreaksLine s := by
  have hbetween := breaksLine_between hq s ""
  rwa [String.append_empty, or_iff_left not_breaksLine_empty] at hbetween

theorem breaksLine_intercalate {q : String} (hq : Quiet (asBytes q)) (texts : List String) :
    BreaksLine (q.intercalate texts) ↔ ∃ t ∈ texts, BreaksLine t := by
  induction texts with
  | nil => simp [not_breaksLine_empty]
  | cons t texts ih =>
      cases texts with
      | nil => simp
      | cons u texts =>
          rw [String.intercalate_cons_cons, breaksLine_between hq, ih]
          simp

/-! ## Reading the frame back -/

theorem exists_crlfAt {b : Bytes} (h : crlf <:+: b) : ∃ i, crlfAt b = some i := by
  induction b with
  | nil => exact absurd h (by decide)
  | cons x rest ih =>
      rw [crlfAt]
      split
      · exact ⟨0, rfl⟩
      · rename_i hno
        obtain hprefix | hrest := List.infix_cons_iff.mp h
        · obtain ⟨t, ht⟩ := hprefix
          obtain ⟨rfl, rfl⟩ := List.cons.inj ht
          exact absurd ⟨rfl, rfl⟩ hno
        · obtain ⟨i, hi⟩ := ih hrest
          exact ⟨i + 1, by rw [hi]; rfl⟩

theorem crlfAt_split {b : Bytes} {k : Nat} (h : crlfAt b = some k) :
    ¬ crlf <:+: b.take k ∧ b = b.take k ++ crlf ++ b.drop (k + 2) := by
  refine ⟨fun hwithin => ?_, crlfAt_parts h⟩
  obtain ⟨i, hi⟩ := exists_crlfAt hwithin
  have hle := crlfAt_le hi
  have hfirst := crlfAt_append hi (b.drop k)
  rw [List.take_append_drop, h] at hfirst
  have hk := Option.some.inj hfirst
  rw [List.length_take] at hle
  omega

theorem frontFrame_broken (reserve : Nat → Bool) {s : String} (h : BreaksLine s) {frame : Frame}
    {rest : Bytes} (hread : frontFrame reserve (Frame.error s).serialize = .ok (frame, rest)) :
    rest ≠ [] := by
  obtain ⟨i, hi⟩ := exists_crlfAt h
  have hle := crlfAt_le hi
  have hfirst : crlfAt (asBytes s ++ crlf) = some i := crlfAt_append hi crlf
  have hbytes : (Frame.error s).serialize = 45 :: (asBytes s ++ crlf) := rfl
  have hlen : (asBytes s ++ crlf).length = (asBytes s).length + 2 := List.length_append
  have hnext : nextByte ⟨45 :: (asBytes s ++ crlf), 0⟩ =
      .ok (45, ⟨45 :: (asBytes s ++ crlf), 1⟩) := nextByte_eq _
  have hunread : (⟨45 :: (asBytes s ++ crlf), 1⟩ : Cursor UInt8).unread = asBytes s ++ crlf := rfl
  have hbranch : decodeBranch reserve (decodeFrame reserve (45 :: (asBytes s ++ crlf)).length) 45 =
      (readLine >>= fun line => pure (Frame.error line)) := rfl
  rw [hbytes, frontFrame, Decoder.parse, decodeFrame, Decoder.bind_apply, hnext] at hread
  dsimp only at hread
  rw [hbranch, Decoder.bind_apply, readLine_eq, hunread, hfirst] at hread
  dsimp only at hread
  cases hline : fromUtf8 ((asBytes s ++ crlf).take i) with
  | none =>
      rw [hline] at hread
      simp at hread
  | some line =>
      rw [hline] at hread
      obtain ⟨-, rfl⟩ := Prod.mk.inj (Except.ok.inj hread)
      intro hnil
      have hdrop : (45 :: (asBytes s ++ crlf)).length ≤ 1 + (i + 2) := List.drop_eq_nil_iff.mp hnil
      rw [List.length_cons, hlen] at hdrop
      omega

theorem parseFrame_alone {reserve : Nat → Bool} {f : Frame} (hstorable : f.Storable reserve)
    (hsafe : f.LineSafe) : parseFrame reserve f.serialize = (.ok (some f), []) := by
  have hread := parseFrame_eq reserve (f.serialize ++ [])
  rw [Frame.serialize, frontFrame_encode hstorable hsafe] at hread
  rwa [List.append_nil] at hread

/-- An error is read back as it was, with nothing behind it, exactly if its text does
not break its line. -/
theorem parseFrame_error_frame_iff (reserve : Nat → Bool) (s : String) :
    parseFrame reserve (Frame.error s).serialize = (.ok (some (.error s)), []) ↔
      ¬ BreaksLine s := by
  constructor
  · intro h hbreaks
    rw [parseFrame_eq] at h
    cases hfront : frontFrame reserve (Frame.error s).serialize with
    | error e =>
        rw [hfront] at h
        dsimp only at h
        split at h <;> exact absurd (congrArg Prod.fst h) nofun
    | ok p =>
        obtain ⟨frame, rest⟩ := p
        rw [hfront] at h
        exact frontFrame_broken reserve hbreaks hfront (congrArg Prod.snd h)
  · exact parseFrame_alone (f := .error s) trivial

end MiniRudis

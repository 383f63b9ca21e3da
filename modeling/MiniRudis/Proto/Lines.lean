import MiniRudis.Proto.Frame
import MiniRudis.Lib.Returns

/-!
# Texts on a line

A status or an error is written as it is, up to CR LF.  The fixed texts of the
program have no CR at all.
-/

namespace MiniRudis

def Plain (s : String) : Prop := '\r' ∉ s.toList

instance (s : String) : Decidable (Plain s) := inferInstanceAs (Decidable (_ ∉ _))

theorem Plain.append {s t : String} (hs : Plain s) (ht : Plain t) : Plain (s ++ t) := by
  unfold Plain at *
  rw [String.toList_append, List.mem_append]
  exact fun h => h.elim hs ht

theorem eq_cr_of_mem_encode {c : Char} (h : (13 : UInt8) ∈ String.utf8EncodeChar c) :
    c = '\r' := by
  have hbyte : ∀ n : Nat, (13 : UInt8) = UInt8.ofNat n → n % 256 = 13 := by
    intro n hn
    have hnat := congrArg UInt8.toNat hn
    rw [UInt8.toNat_ofNat'] at hnat
    exact hnat.symm
  have hcode : c.toNat = 13 := by
    show c.val.toNat = 13
    unfold String.utf8EncodeChar at h
    dsimp only at h
    split at h
    · have hone := hbyte _ (List.mem_singleton.mp h)
      omega
    · -- a longer encoding has no byte below 128
      have hlong : ∀ n : Nat, 128 ≤ n % 256 → (13 : UInt8) ≠ UInt8.ofNat n := by
        intro n hn heq
        have hsmall := hbyte n heq
        omega
      exfalso
      split at h
      · simp only [List.mem_cons, List.not_mem_nil, or_false] at h
        obtain h | h := h <;> exact hlong _ (by omega) h
      · split at h
        · simp only [List.mem_cons, List.not_mem_nil, or_false] at h
          obtain h | h | h := h <;> exact hlong _ (by omega) h
        · simp only [List.mem_cons, List.not_mem_nil, or_false] at h
          obtain h | h | h | h := h <;> exact hlong _ (by omega) h
  exact Char.toNat_inj.mp hcode

theorem Plain.lineSafe {s : String} (h : Plain s) : ¬ crlf <:+: asBytes s := by
  intro hwithin
  have hcr : (13 : UInt8) ∈ asBytes s := hwithin.subset (by simp [crlf])
  rw [asBytes_eq, List.mem_flatMap] at hcr
  obtain ⟨c, hc, hbyte⟩ := hcr
  rw [eq_cr_of_mem_encode hbyte] at hc
  exact h hc

/-- An error whose text has no CR; a panic has no text. -/
def Fault.Plain : Fault → Prop
  | .err e => MiniRudis.Plain e.text
  | .panicked => True

def Fault.Reported : Fault → Prop
  | .err e => MiniRudis.Plain e.text
  | .panicked => False

theorem Fault.Reported.plain {f : Fault} (h : f.Reported) : f.Plain := by
  cases f with
  | err e => exact h
  | panicked => trivial

theorem ne_panicked {α : Type} {P : α → Prop} {x : Outcome α}
    (h : Lib.Returns P Fault.Reported x) : x ≠ panicked := by
  rintro rfl
  exact h

end MiniRudis
